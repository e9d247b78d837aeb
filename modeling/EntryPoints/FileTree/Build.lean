import EntryPoints.FileTree.Access
import EntryPoints.Table

/-!
Building a tree entry by entry, and listing what a directory holds. An entry's missing parent
directories are made with it.
-/
namespace EntryPoints.FileTree

def parentPath (p : Path) : Path := Path.ofPieces (Path.pieces p).dropLast

def makeDirectory (files : FileTree) (p : Path) : Except Cause FileTree :=
  match files.target .reach p with
  | .error cause => .error cause
  | .ok (.vacant parent name) => .ok (files.put parent name .directory)
  | .ok (.node place) =>
    if files.node? place = some .directory then .ok files else .error .notADirectory

/-- The ever longer paths that lead to `p`, and `p` at last. -/
def approach (p : Path) : List Path :=
  let ps := Path.pieces p
  ((List.range ps.length).map fun n => Path.ofPieces (ps.take (n + 1))).filter (· ≠ [])

def makeDirectories (files : FileTree) (p : Path) : Except Cause FileTree :=
  (approach p).foldlM makeDirectory files

def addFile (files : FileTree) (p : Path) (f : File) : Except Cause FileTree := do
  let files ← files.makeDirectories (parentPath p)
  files.store p f

def addLink (files : FileTree) (p target : Path) : Except Cause FileTree := do
  let files ← files.makeDirectories (parentPath p)
  match ← files.target .inspect p with
  | .vacant parent name => .ok (files.put parent name (.link target))
  | .node place =>
    match place.getLast? with
    | some name => .ok (files.put place.dropLast name (.link target))
    | none => .error .isADirectory

/-- Removes what bears the path's last name, with all below it; a link is removed itself. -/
def discard (files : FileTree) (p : Path) : FileTree :=
  match files.target .inspect p with
  | .ok (.node place) => files.remove place
  | _ => files

def listing (files : FileTree) (p : Path) : Table Path Node :=
  match files.locate p with
  | .ok place =>
    .ofList ((files.below place).reverse.map fun (k, node) => (Path.ofPieces k, node))
  | .error _ => .empty

end EntryPoints.FileTree
