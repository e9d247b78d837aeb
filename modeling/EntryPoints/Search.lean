import EntryPoints.FileTree.Access
import EntryPoints.Table
import EntryPoints.Text.Quoted

/-!
Looking for an executable by name: first in the known directories of a staged root, in their
order; then in the directories of the whole staged tree, as deep as the reach allows, in the order
of their names; then on the host. The first match counts.
-/
namespace EntryPoints

inductive Reach where
  | full
  | bounded (depth : Nat)
  | disabled
  deriving DecidableEq, Repr

def Reach.text : Reach → Text
  | .full => Text.of "full"
  | .bounded depth => Text.of "bounded(" ++ Text.decimal depth ++ [')']
  | .disabled => Text.of "disabled"

def Reach.covers : Reach → Nat → Bool
  | .full, _ => true
  | .bounded depth, n => n ≤ depth
  | .disabled, _ => false

/-- What the host answers when it is asked for an executable by its name. -/
structure Host where
  find? : Text → Option Path

def Host.named (paths : Table Text Path) : Host := ⟨paths.find?⟩

inductive Origin where
  | binaryDirectory
  | stagedTree
  | host
  deriving DecidableEq, Repr

def Origin.isFallback (o : Origin) : Bool := o ≠ .binaryDirectory

/-- An executable that was looked for by name, and where it was found. -/
structure Match where
  name : Text
  path : Path
  origin : Origin
  deriving DecidableEq, Repr

structure Search where
  binDirs : List Path
  reach : Reach
  host : Host

/-- The directories of the tree under `root` that the reach covers, each by its path. The root is
one of them unless it is a link; links below it are not followed. -/
def FileTree.directories (files : FileTree) (root : Path) (reach : Reach) : List Path :=
  let top := if reach.covers 0 && files.isOwnDirectory root then [root] else []
  let inner :=
    match files.locate root with
    | .ok place =>
      (files.below place).filterMap fun (k, node) =>
        if node = .directory && reach.covers k.length then some (Path.join root (Path.ofPieces k))
        else none
    | .error _ => []
  top ++ inner

namespace Search

def inBinDirs? (s : Search) (files : FileTree) (root : Path) (name : Text) : Option Path :=
  (s.binDirs.map fun dir => Path.join (Path.join root dir) name).find? files.isExecutable

def inTree? (s : Search) (files : FileTree) (root : Path) (name : Text) : Option Path :=
  ((files.directories root s.reach).map (Path.join · name)).find? files.isExecutable

def find? (s : Search) (files : FileTree) (root : Path) (name : Text) : Option Match :=
  match s.inBinDirs? files root name with
  | some path => some ⟨name, path, .binaryDirectory⟩
  | none =>
    match s.inTree? files root name with
    | some path => some ⟨name, path, .stagedTree⟩
    | none => (s.host.find? name).map (⟨name, ·, .host⟩)

def summary (s : Search) : Text :=
  let reach : Text :=
    match s.reach with
    | .full => Text.of "Full"
    | .bounded depth =>
      Text.of "Bounded \x7b max_depth: " ++ Text.decimal depth ++ Text.of " \x7d"
    | .disabled => Text.of "Disabled"
  Text.of "ExecutableLocator \x7b bin_dirs: [" ++
    Text.join (Text.of ", ") (s.binDirs.map Path.quoted) ++
    Text.of "], tree_search: " ++ reach ++ Text.of ", .. \x7d"

end Search
end EntryPoints
