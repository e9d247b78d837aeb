import EntryPoints.Proofs.Spelling

/-!
Paths that are seen from others. It is all one whether a name is seen from a directory and the
result from a root, or the directory from the root and the name from there (`join_join`). What is
left of it below the root is a part of what was joined (`infix_of_below?_join`), so it is no
longer.
-/
namespace EntryPoints

namespace Text

theorem join_append {α : Type} (mark : List α) {a b : List (List α)} (ha : a ≠ []) (hb : b ≠ []) :
    join mark (a ++ b) = join mark a ++ mark ++ join mark b := by
  induction a with
  | nil => exact absurd rfl ha
  | cons t a ih =>
    cases a with
    | nil =>
      obtain ⟨u, us, rfl⟩ := List.exists_cons_of_ne_nil hb
      rfl
    | cons v a =>
      have hrest := ih (List.cons_ne_nil v a)
      rw [List.cons_append] at hrest
      simp [join, hrest]

theorem join_infix {α : Type} (mark : List α) {a b : List (List α)} (h : a <:+: b) :
    join mark a <:+: join mark b := by
  by_cases hne : a = []
  · subst hne
    exact List.nil_infix
  · obtain ⟨front, back, rfl⟩ := h
    have hfront : join mark a <:+ join mark (front ++ a) := by
      by_cases hempty : front = []
      · subst hempty
        exact List.suffix_rfl
      · rw [join_append mark hempty hne]
        exact List.suffix_append _ _
    have hback : join mark (front ++ a) <+: join mark (front ++ a ++ back) := by
      by_cases hempty : back = []
      · subst hempty
        simp only [List.append_nil, List.prefix_rfl]
      · rw [join_append mark (by simp [hne]) hempty, List.append_assoc]
        exact List.prefix_append _ _
    exact hfront.isInfix.trans hback.isInfix

end Text

namespace Path

variable {base p q dir name tail : Path}

/-- What comes between a path and a relative one that is seen from it. -/
def seam (base : Path) : Path := if base = [] ∨ base.getLast? = some slash then [] else [slash]

theorem join_eq_seam (base : Path) (h : isAbsolute p = false) :
    join base p = base ++ seam base ++ p := by
  rw [join, if_neg (by simp [h]), seam]
  split <;> simp

theorem seam_append (base p : Path) : seam (base ++ seam base ++ p) = seam p := by
  by_cases hempty : p = []
  · subst hempty
    by_cases hslash : base = [] ∨ base.getLast? = some slash <;> simp [seam, hslash]
  · simp [seam, hempty]

theorem isAbsolute_join_relative (hbase : isAbsolute base = false) (hp : isAbsolute p = false) :
    isAbsolute (join base p) = false := by
  cases base with
  | nil => simp [join, hp]
  | cons c base =>
    rw [join_eq_seam _ hp]
    exact hbase

theorem join_join (base : Path) (hdir : isAbsolute dir = false) (hname : isAbsolute name = false) :
    join (join base dir) name = join base (join dir name) := by
  rw [join_eq_seam base (isAbsolute_join_relative hdir hname), join_eq_seam base hdir,
    join_eq_seam _ hname, join_eq_seam dir hname, seam_append]
  simp only [List.append_assoc]

theorem piecesBelow?_nil (ps : List Path) :
    piecesBelow? [] ps = some (ps.dropWhile (!isTelling ·)) := by
  induction ps with
  | nil => rfl
  | cons p ps ih => cases h : isTelling p <;> simp [piecesBelow?, h, ih]

theorem piecesBelow?_append (front ps : List Path) :
    piecesBelow? (front.filter isTelling) (front ++ ps) =
      some (ps.dropWhile (!isTelling ·)) := by
  induction front with
  | nil => exact piecesBelow?_nil ps
  | cons p front ih => cases h : isTelling p <;> simp [piecesBelow?, h, ih]

theorem trimmed_infix (p : Path) : trimmed p <:+: p := by
  unfold trimmed
  split
  · split
    · rename_i habsolute
      obtain ⟨tail, rfl⟩ := List.head?_eq_some_iff.mp (by simpa [isAbsolute] using habsolute)
      exact (List.prefix_append [slash] tail).isInfix
    · split
      · rename_i hhere
        obtain ⟨others, hpieces⟩ := List.head?_eq_some_iff.mp (by simpa [startsHere] using hhere)
        have hp := ofPieces_pieces p
        rw [hpieces] at hp
        have hfirst : [[dot]] <:+: [dot] :: others := (List.prefix_append [[dot]] others).isInfix
        exact hp ▸ Text.join_infix [slash] hfirst
      · exact List.nil_infix
  · have hparts := Text.join_infix [slash] (prefix_trimEnd (pieces p)).isInfix
    have hwhole : Text.join [slash] (pieces p) = p := ofPieces_pieces p
    rwa [hwhole] at hparts

theorem filter_of_ofPieces_eq_nil {ps : List Path} (h : ofPieces ps = []) :
    ps.filter isTelling = [] := by
  cases ps with
  | nil => rfl
  | cons piece others =>
    cases others with
    | nil =>
      obtain rfl : piece = [] := h
      decide
    | cons next others => simp [ofPieces, Text.join] at h

theorem telling_trimmed (p : Path) :
    (pieces (trimmed p)).filter isTelling = (pieces p).filter isTelling := by
  rw [← filter_trimEnd (pieces p)]
  unfold trimmed
  split
  · rename_i hnone
    rw [hnone]
    split
    · decide
    · split <;> decide
  · rename_i hsome
    rw [pieces_ofPieces_trimEnd List.suffix_rfl]
    intro hnone
    have hidle := filter_of_ofPieces_eq_nil hnone
    obtain ⟨piece, hlast, htelling⟩ := last_trimEnd (by simpa using hsome)
    exact List.filter_eq_nil_iff.mp hidle piece (List.mem_of_getLast? hlast) htelling

/-- A path whose last piece is telling has nothing to be trimmed off. -/
theorem trimmed_eq_self {p piece : Path} (h : (pieces p).getLast? = some piece)
    (htelling : isTelling piece = true) : trimmed p = p := by
  have hends : trimEnd (pieces p) = pieces p := by
    obtain ⟨front, hpieces⟩ := List.getLast?_eq_some_iff.mp h
    simp [trimEnd, hpieces, htelling]
  have hsome : pieces p ≠ [] := Text.cut_ne_nil slash p
  unfold trimmed
  rw [hends]
  split
  · rename_i hnone
    exact absurd hnone hsome
  · exact ofPieces_pieces p

/-- The last piece of a path that enters a name at last is that name, and tells. -/
theorem last_telling {name : Path} (h : (steps p).getLast? = some (.enter name)) :
    ∃ piece, (pieces p).getLast? = some piece ∧ isTelling piece = true := by
  obtain ⟨init, last, hcut⟩ := Text.cut_eq_concat slash p
  have hpieces : pieces p = init ++ [last] := hcut
  refine ⟨last, by simp [hpieces], ?_⟩
  rw [isTelling, Bool.and_eq_true, decide_eq_true_eq, decide_eq_true_eq]
  constructor
  · rintro rfl
    -- Nothing stands before the end, or a slash does.
    have hp := ofPieces_pieces p
    by_cases hinit : init = []
    · rw [hpieces, hinit] at hp
      subst hp
      cases h
    · rw [hpieces, ofPieces, Text.join_append [slash] hinit (List.cons_ne_nil _ _)] at hp
      have hslash : p.getLast? = some slash := by simp [← hp, Text.join]
      rw [steps, if_pos hslash, List.getLast?_concat] at h
      cases h
  · rintro rfl
    rw [steps, hpieces, List.filterMap_append] at h
    split at h <;> simp [step?] at h

theorem infix_of_below?_join (htail : isAbsolute tail = false)
    (h : below? base (join base tail) = some q) : q <:+: tail := by
  unfold below? at h
  split at h
  · rename_i hempty
    have hself : join base tail = tail := by simp [join, htail, hempty]
    rw [hself, Option.some.injEq] at h
    exact h ▸ trimmed_infix tail
  · obtain ⟨front, hpieces, hfront⟩ := pieces_join base htail
    split at h
    · rw [hpieces, ← hfront, piecesBelow?_append, Option.map_some, Option.some.injEq] at h
      subst h
      have hparts := (prefix_trimEnd ((pieces tail).dropWhile (!isTelling ·))).isInfix
      have hjoin := Text.join_infix [slash] (hparts.trans (List.dropWhile_suffix _).isInfix)
      have hwhole : Text.join [slash] (pieces tail) = tail := ofPieces_pieces tail
      rwa [hwhole] at hjoin
    · cases h

theorem head?_pieces_append (p rest : Path) :
    (pieces (p ++ slash :: rest)).head? = (pieces p).head? := by
  have hpieces : pieces (p ++ slash :: rest) = pieces p ++ pieces rest :=
    Text.cut_append slash p rest
  obtain ⟨first, others, hfirst⟩ : ∃ first others, pieces p = first :: others :=
    List.exists_cons_of_ne_nil (Text.cut_ne_nil slash p)
  rw [hpieces, hfirst]
  rfl

theorem startsHere_join (hbase : base ≠ []) (htail : isAbsolute tail = false) :
    startsHere (join base tail) = startsHere base := by
  rw [startsHere, startsHere, join, if_neg (by simp [htail])]
  split
  · rename_i hslash
    obtain ⟨front, rfl⟩ := List.getLast?_eq_some_iff.mp (hslash.resolve_left hbase)
    rw [List.append_assoc, List.singleton_append, head?_pieces_append, head?_pieces_append]
  · rw [head?_pieces_append]

theorem exists_below?_join (base : Path) (htail : isAbsolute tail = false) :
    ∃ q, below? base (join base tail) = some q := by
  by_cases hbase : base = []
  · exact ⟨_, by rw [below?, if_pos hbase]⟩
  · obtain ⟨front, hpieces, hfront⟩ := pieces_join base htail
    have habsolute : isAbsolute base = isAbsolute (join base tail) := by
      obtain ⟨c, rest, rfl⟩ := List.exists_cons_of_ne_nil hbase
      rw [join_eq_seam _ htail]
      rfl
    rw [below?, if_neg hbase, if_pos ⟨habsolute, (startsHere_join hbase htail).symm⟩, hpieces,
      ← hfront, piecesBelow?_append]
    exact ⟨_, rfl⟩

theorem length_join_le (base : Path) (hq : isAbsolute q = false) (h : p <:+: q) :
    (join base p).length ≤ (join base q).length := by
  have hpart := h.length_le
  rw [join_eq_seam base hq, List.length_append]
  cases hp : isAbsolute p with
  | true =>
    rw [join, if_pos hp]
    omega
  | false =>
    rw [join_eq_seam base hp, List.length_append]
    omega

theorem last_step_join_nil (hbase : base ≠ []) : (steps (join base [])).getLast? = some .close := by
  have hslash : (join base []).getLast? = some slash := by
    by_cases hslash : base.getLast? = some slash <;> simp [join, isAbsolute, hbase, hslash]
  rw [steps, if_pos hslash, List.getLast?_concat]

theorem telling_ne_nil {name : Path} (h : .enter name ∈ steps p) :
    (pieces p).filter isTelling ≠ [] := by
  intro hnone
  have hkept : Step.enter name ∈ (steps p).filter (!·.isIdle) :=
    List.mem_filter.mpr ⟨h, by simp [Step.isIdle]⟩
  rw [filter_steps, hnone] at hkept
  exact absurd hkept List.not_mem_nil

theorem telling_below (h : below? base p = some q) :
    (pieces p).filter isTelling =
      (pieces base).filter isTelling ++ (pieces q).filter isTelling := by
  by_cases hbase : base = []
  · rw [below?, if_pos hbase, Option.some.injEq] at h
    rw [← h, telling_trimmed, hbase]
    rfl
  · by_cases hne : q = []
    · subst hne
      rw [below?, if_neg hbase] at h
      split at h
      · obtain ⟨rest, hrest, hq⟩ := Option.map_eq_some_iff.mp h
        have hnone := filter_of_ofPieces_eq_nil hq
        rw [filter_trimEnd] at hnone
        rw [(piecesBelow?_eq_some hrest).1, hnone]
        rfl
      · cases h
    · exact (pieces_below hbase h hne).1

end Path

end EntryPoints
