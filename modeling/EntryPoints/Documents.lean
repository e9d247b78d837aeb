import EntryPoints.Json.Reader
import EntryPoints.Manifest
import EntryPoints.Settings

/-!
The two documents of a run, and all that can make a run fail.
-/
namespace EntryPoints

inductive RunFailure where
  | unreadableSettings (path : Path) (cause : Cause)
  | malformedSettings
  | faultySettings (fault : SettingsFault)
  | unreadableManifest (path : Path) (cause : Cause)
  | malformedManifest
  | unsettled (app name : Text) (failure : Failure)
  | wrapperUnwritten (wrapper : Text) (failure : Failure)
  | unresolvedRoot (path : Path) (cause : Cause)
  | rootNotADirectory (path : Path)
  | unknownReach (word : Text)
  | unwritableReport
  deriving DecidableEq, Repr

namespace RunFailure

/-- What failed, and after it why, and why that failed in turn. -/
def chain : RunFailure → List Text
  | .unreadableSettings path cause => [Text.of "read config " ++ path.text, cause.message]
  | .malformedSettings => [Text.of "parse prime config JSON"]
  | .faultySettings fault => [fault.message]
  | .unreadableManifest path cause => [Text.of "read apps " ++ path.text, cause.message]
  | .malformedManifest => [Text.of "parse apps JSON"]
  | .unsettled app name failure =>
    (Text.of "finalize " ++ name ++ Text.of " for app " ++ app) :: failure.chain
  | .wrapperUnwritten wrapper failure => (Text.of "write wrapper " ++ wrapper) :: failure.chain
  | .unresolvedRoot path cause => [Text.of "resolve staged root " ++ path.text, cause.message]
  | .rootNotADirectory path =>
    [Text.of "staged root " ++ path.text ++ Text.of " is not a directory"]
  | .unknownReach word =>
    [Text.of "--tree-search must be \"full\", \"disabled\", or a depth (got " ++
      Text.quoted word ++ [')']]
  | .unwritableReport =>
    [Text.of "serialize prime report", Text.of "path contains invalid UTF-8 characters"]

def message (f : RunFailure) : Text := Text.join (Text.of ": ") f.chain

end RunFailure

def Settings.check (s : Settings) : Except RunFailure Settings :=
  match s.fault? with
  | some fault => .error (.faultySettings fault)
  | none => .ok s

def Settings.load (files : FileTree) (path : Path) : Except RunFailure Settings :=
  match files.read path with
  | .error cause => .error (.unreadableSettings path cause)
  | .ok bytes =>
    match (Json.ofBytes? bytes).bind Settings.ofJson? with
    | none => .error .malformedSettings
    | some s => s.check

def Manifest.load (files : FileTree) (path : Path) : Except RunFailure Manifest :=
  match files.read path with
  | .error cause => .error (.unreadableManifest path cause)
  | .ok bytes =>
    match (Json.ofBytes? bytes).bind Manifest.ofJson? with
    | none => .error .malformedManifest
    | some m => .ok m

end EntryPoints
