import EntryPoints.Json.Record
import EntryPoints.Stage
import EntryPoints.Text.Blank

/-!
Settings of a run: the placeholder of the staged root, the known directories of executables, and
how far the staged tree is searched. Every one of them has a default.
-/
namespace EntryPoints

structure Settings where
  placeholder : Text := Text.of "$SNAP"
  binDirs : List Text := [Text.of "usr/sbin", Text.of "usr/bin", Text.of "sbin", Text.of "bin"]
  reach : Reach := .full
  deriving DecidableEq, Repr

inductive SettingsFault where
  | emptyPlaceholder
  | unfitPlaceholder (placeholder : Text)
  | unfitBinDir (dir : Text)
  deriving DecidableEq, Repr

def SettingsFault.message : SettingsFault → Text
  | .emptyPlaceholder => Text.of "root_variable must be non-empty"
  | .unfitPlaceholder placeholder =>
    Text.of "root_variable must not contain '/' or whitespace (got " ++ Text.quoted placeholder ++
      [')']
  | .unfitBinDir dir =>
    Text.of "bin_dirs entries must be relative paths without '..' (got " ++ Text.quoted dir ++ [')']

namespace Settings

/-- A directory that stays in the root as it is written. -/
def isFitBinDir (dir : Text) : Bool :=
  dir ≠ [] && !Path.isAbsolute dir && !Path.climbs dir

def fault? (s : Settings) : Option SettingsFault :=
  if s.placeholder = [] then some .emptyPlaceholder
  else if s.placeholder.any fun c => c = '/' || Text.isBlank c then
    some (.unfitPlaceholder s.placeholder)
  else (s.binDirs.find? (!isFitBinDir ·)).map .unfitBinDir

def depthOfJson? : Json → Option Nat
  | .array [n] => n.natural?
  | v => do
    let members ← v.members?
    match members.filter (·.1 = Text.of "max_depth") with
    | [(_, n)] => n.natural?
    | _ => none

/-- A reach without a depth. -/
def plainReachOfJson? (v : Json) : Option Reach := do
  let name ← v.choice?
  if name = Text.of "full" then some .full
  else if name = Text.of "disabled" then some .disabled
  else none

def reachOfJson? (v : Json) : Option Reach :=
  match v with
  | .object [(some name, depth)] =>
    if name = Text.of "bounded" then (depthOfJson? depth).map .bounded else plainReachOfJson? v
  | _ => plainReachOfJson? v

def ofJson? (v : Json) : Option Settings := do
  let usual : Settings := {}
  match ← v.fields? [Text.of "root_variable", Text.of "bin_dirs", Text.of "tree_search"] with
  | [placeholder, binDirs, reach] =>
    let placeholder ← placeholder.elim (some usual.placeholder) Json.text?
    let binDirs ← binDirs.elim (some usual.binDirs) Json.texts?
    let reach ← reach.elim (some usual.reach) reachOfJson?
    some ⟨placeholder, binDirs, reach⟩
  | _ => none

def reachJson : Reach → Json
  | .full => .text (Text.of "full")
  | .disabled => .text (Text.of "disabled")
  | .bounded depth =>
    .object [Json.member "bounded" (.object [Json.member "max_depth" (.natural depth)])]

def json (s : Settings) : Json :=
  .object [Json.member "root_variable" (.text s.placeholder),
    Json.member "bin_dirs" (.array (s.binDirs.map .text)),
    Json.member "tree_search" (reachJson s.reach)]

/-- The staged root under these settings. Known directories that it lacks are left out. -/
def stage (s : Settings) (files : FileTree) (root : Path) (host : Host) : Stage :=
  ⟨root, s.placeholder,
    ⟨(s.binDirs.map Path.of).filter fun dir => files.isDirectory (Path.join root dir), s.reach,
      host⟩⟩

end Settings
end EntryPoints
