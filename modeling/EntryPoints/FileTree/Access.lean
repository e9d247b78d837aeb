import EntryPoints.FileTree.Walk

/-!
What a program asks of a tree by path: whether something is there and of which kind, what a file
holds, and to store a file. A path that fails leaves the tree as it is, for then there is no new
one.
-/
namespace EntryPoints.FileTree

def locate (files : FileTree) (p : Path) : Except Cause Location :=
  (files.target .reach p).bind Target.place

def lookup (files : FileTree) (p : Path) : Except Cause Node := do
  let place ← files.locate p
  match files.node? place with
  | some node => .ok node
  | none => .error .notFound

def holds (files : FileTree) (p : Path) : Bool := (files.lookup p).isOk

def isFile (files : FileTree) (p : Path) : Bool :=
  match files.lookup p with
  | .ok (.file _) => true
  | _ => false

def isDirectory (files : FileTree) (p : Path) : Bool :=
  match files.lookup p with
  | .ok .directory => true
  | _ => false

def isExecutable (files : FileTree) (p : Path) : Bool :=
  match files.lookup p with
  | .ok (.file f) => f.isExecutable
  | _ => false

theorem holds_of_isFile {files : FileTree} {p : Path} (h : files.isFile p = true) :
    files.holds p = true := by
  rw [isFile] at h
  split at h
  · rename_i hlookup
    rw [holds, hlookup]
    rfl
  · cases h

theorem holds_of_isExecutable {files : FileTree} {p : Path} (h : files.isExecutable p = true) :
    files.holds p = true := by
  rw [isExecutable] at h
  split at h
  · rename_i hlookup
    rw [holds, hlookup]
    rfl
  · cases h

/-- The path itself, and no link at its end, is a directory. -/
def isOwnDirectory (files : FileTree) (p : Path) : Bool :=
  match files.target .inspect p with
  | .ok (.node place) => files.node? place = some .directory
  | _ => false

def read (files : FileTree) (p : Path) : Except Cause (List UInt8) := do
  match ← files.lookup p with
  | .file f => .ok f.bytes
  | .directory => .error .isADirectory
  | .link _ => .error .tooManyLinks

/-- The one path from the top that passes no link and has no idle piece. -/
def canonical (files : FileTree) (p : Path) : Except Cause Path :=
  ((files.target .resolve p).bind Target.place).map Location.path

/-- The tree in which the path leads to this file, which replaces the one it led to or takes the
free name that it led to. -/
def store (files : FileTree) (p : Path) (f : File) : Except Cause FileTree :=
  match files.target .create p with
  | .error cause => .error cause
  | .ok (.vacant parent name) => .ok (files.put parent name (.file f))
  | .ok (.node place) =>
    match files.node? place, place.getLast? with
    | some (.file _), some name => .ok (files.put place.dropLast name (.file f))
    | _, _ => .error .isADirectory

end EntryPoints.FileTree
