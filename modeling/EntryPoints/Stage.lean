import EntryPoints.Search

/-!
A staged root, as commands refer to it: its path, the placeholder that stands for it at run time,
and the search for executables in it. A command that names something in the staged root is looked up
there as it is written, and searched for only if nothing lies there.
-/
namespace EntryPoints

structure Stage where
  root : Path
  placeholder : Text
  search : Search

/-- What a command word turns out to name. -/
inductive Referent where
  | literal (path : Text)
  | searched (path : Text) (found : Match)
  | missing
  deriving DecidableEq, Repr

namespace Referent

def path? : Referent → Option Text
  | .literal path => some path
  | .searched path _ => some path
  | .missing => none

def origin? : Referent → Option Origin
  | .searched _ found => some found.origin
  | _ => none

def wasSearched : Referent → Bool
  | .literal _ => false
  | _ => true

/-- The match behind the referent, if a search made it. -/
def found : Referent → List Match
  | .searched _ found => [found]
  | _ => []

end Referent

namespace Stage

def anchor (s : Stage) : Text := s.placeholder ++ ['/']

/-- The word without one leading slash, and then without one anchor. -/
def relative (s : Stage) (word : Text) : Text :=
  Text.dropStart s.anchor (Text.dropStart ['/'] word)

theorem relative_suffix (s : Stage) (word : Text) : s.relative word <:+ word :=
  (Text.dropStart_suffix _ _).trans (Text.dropStart_suffix _ _)

/-- A word that is written from the root, with neither a slash nor an anchor in front, stays. -/
theorem relative_eq_self_iff {s : Stage} {word : Text} :
    s.relative word = word ↔ Path.isAbsolute word = false ∧ ¬ s.anchor <+: word := by
  have hanchor : s.anchor ≠ [] := by simp [anchor]
  constructor
  · intro h
    by_cases hslash : ['/'] <+: word
    · obtain ⟨rest, rfl⟩ := hslash
      have hlength := (Text.dropStart_suffix s.anchor rest).length_le
      rw [relative, Text.dropStart_append] at h
      rw [h, List.length_append, List.length_singleton] at hlength
      omega
    · rw [relative, Text.dropStart_eq_self hslash] at h
      refine ⟨?_, ?_⟩
      · cases word with
        | nil => rfl
        | cons c rest => simpa [Path.isAbsolute_of, eq_comm] using hslash
      · rintro ⟨rest, rfl⟩
        rw [Text.dropStart_append] at h
        exact hanchor (List.append_left_eq_self.mp h.symm)
  · rintro ⟨hrelative, hplain⟩
    have hslash : ¬ ['/'] <+: word := by
      rintro ⟨rest, rfl⟩
      simp [Path.isAbsolute_of] at hrelative
    rw [relative, Text.dropStart_eq_self hslash, Text.dropStart_eq_self hplain]

/-- The path as it is seen from the root, if it leads through the root. -/
def fromRoot (s : Stage) (p : Path) : Path := (Path.below? s.root p).getD p

/-- What a word names. A path that is found is told as a text, whatever that loses of it. -/
def resolve (s : Stage) (files : FileTree) (word : Text) : Referent :=
  let name := s.relative word
  if files.holds (Path.join s.root name) then .literal name
  else
    match s.search.find? files s.root name with
    | none => .missing
    | some found => .searched (s.fromRoot found.path).text found

end Stage
end EntryPoints
