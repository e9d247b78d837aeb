import EntryPoints.Text

/-!
Command texts that the runtime can invoke as they stand. Such a text is not empty, all its
characters are of a small alphabet, and it does not begin with a slash.
-/
namespace EntryPoints

namespace Invocable

/-- The alphabet of command texts, the slash apart. -/
def isPlain (c : Char) : Bool :=
  c.isAlphanum || c = '.' || c = ' ' || c = '_' || c = '#' || c = ':' || c = '$' || c = '-'

def isLetter (c : Char) : Bool := isPlain c || c = '/'

end Invocable

def isInvocable : Text → Bool
  | [] => false
  | c :: rest => Invocable.isPlain c && rest.all Invocable.isLetter

def needsWrapper (t : Text) : Bool := t.head? = some '/' || !isInvocable t

theorem isInvocable_slash (t : Text) : isInvocable ('/' :: t) = false := by
  simp [isInvocable, Invocable.isPlain]

theorem needsWrapper_eq_not_isInvocable (t : Text) : needsWrapper t = !isInvocable t := by
  cases t with
  | nil => rfl
  | cons c rest =>
    by_cases h : c = '/'
    · subst h
      simp [needsWrapper, isInvocable_slash]
    · simp [needsWrapper, h]

end EntryPoints
