import EntryPoints.Text.Utf8

/-!
Paths. A path is a list of bytes, and so is the name of a file: a text becomes one by its UTF-8
bytes, but the bytes need not spell a text. A path is read through its pieces, the stretches
between slashes; the empty piece and the piece of one dot name nothing, so spellings that differ in
them lead to the same place.
-/
namespace EntryPoints

abbrev Path := List UInt8

namespace Path

def of (t : Text) : Path := Text.Utf8.encode t

instance : Coe Text Path := ⟨of⟩

/-- The path as it is shown and written into commands. Bytes that spell no character are lost. -/
def text (p : Path) : Text := Text.Utf8.lenient p

/-- Nothing of the path is lost where it is shown. -/
def IsText (p : Path) : Prop := of (text p) = p

instance (p : Path) : Decidable p.IsText := inferInstanceAs (Decidable (_ = _))

theorem of_append (s t : Text) : of (s ++ t) = of s ++ of t := Text.Utf8.encode_append s t

theorem text_of (t : Text) : text (of t) = t := Text.Utf8.lenient_encode t

theorem isText_of (t : Text) : (of t).IsText := congrArg of (text_of t)

abbrev slash : UInt8 := 0x2f

abbrev dot : UInt8 := 0x2e

abbrev nul : UInt8 := 0

def isAbsolute (p : Path) : Bool := p.head? = some slash

theorem isAbsolute_of (t : Text) : isAbsolute t = decide (t.head? = some '/') := by
  cases t with
  | nil => rfl
  | cons c t =>
    by_cases hlow : c.toNat < 0x80
    · have hslash : UInt8.ofNat c.toNat = slash ↔ c = '/' := by
        rw [← UInt8.toNat_inj, Text.Utf8.toNat_byte (by omega), ← Char.toNat_inj]
        exact Iff.rfl
      simp [isAbsolute, of, Text.Utf8.encode_cons, Text.Utf8.encodeChar_low hlow, hslash]
    · obtain ⟨byte, others, hbytes⟩ : ∃ byte others, String.utf8EncodeChar c = byte :: others :=
        List.exists_cons_of_ne_nil (by simp)
      have hhigh : 0x80 ≤ byte.toNat :=
        Text.Utf8.high_of_mem_encodeChar (Nat.le_of_not_lt hlow) (by simp [hbytes])
      have hbyte : byte ≠ slash := by
        rintro rfl
        exact absurd hhigh (by decide)
      have hc : c ≠ '/' := by
        rintro rfl
        exact hlow (by decide)
      simp [isAbsolute, of, Text.Utf8.encode_cons, hbytes, hbyte, hc]

theorem isAbsolute_of_append {s : Text} (h : s ≠ []) (t : Text) :
    isAbsolute (of (s ++ t)) = isAbsolute (of s) := by
  cases s with
  | nil => exact absurd rfl h
  | cons c s => simp [isAbsolute_of]

/-- `p` as seen from `base`. An absolute `p` does not depend on `base`, and an empty one leaves the
slash that it would have followed. -/
def join (base p : Path) : Path :=
  if isAbsolute p then p
  else if base = [] ∨ base.getLast? = some slash then base ++ p
  else base ++ slash :: p

def pieces (p : Path) : List Path := Text.cut slash p

def ofPieces (ps : List Path) : Path := Text.join [slash] ps

/-- The piece takes part in naming a place. -/
def isTelling (piece : Path) : Bool := piece ≠ [] && piece ≠ [dot]

def climbs (p : Path) : Bool := (pieces p).contains [dot, dot]

/-- The path starts with a dot of its own, which counts where it is compared with another. -/
def startsHere (p : Path) : Bool := (pieces p).head? = some [dot]

/-- The pieces without those at the end that name nothing. -/
def trimEnd (ps : List Path) : List Path := (ps.reverse.dropWhile (!isTelling ·)).reverse

/-- The path without what names nothing at its end. If nothing else is in it, it keeps its start. -/
def trimmed (p : Path) : Path :=
  match trimEnd (pieces p) with
  | [] => if isAbsolute p then [slash] else if startsHere p then [dot] else []
  | ps => ofPieces ps

/-- The pieces that are left when those of `base` have been met in turn, with what names nothing
taken off the front. -/
def piecesBelow? : List Path → List Path → Option (List Path)
  | base, [] => if base = [] then some [] else none
  | base, p :: ps =>
    if isTelling p then
      match base with
      | [] => some (p :: ps)
      | b :: bs => if p = b then piecesBelow? bs ps else none
    else piecesBelow? base ps

/-- The rest of `p` where `p` leads through `base`, piece by piece and from the same start. It
keeps its own spelling, apart from pieces at its ends that name nothing. Every path leads through
the empty one, and keeps its start then. -/
def below? (base p : Path) : Option Path :=
  if base = [] then some (trimmed p)
  else if isAbsolute base = isAbsolute p ∧ startsHere base = startsHere p then
    (piecesBelow? ((pieces base).filter isTelling) (pieces p)).map fun rest =>
      ofPieces (trimEnd rest)
  else none

theorem ofPieces_pieces (p : Path) : ofPieces (pieces p) = p := Text.join_cut slash p

end Path
end EntryPoints
