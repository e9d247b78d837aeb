import EntryPoints.Notice

/-!
What a run tells while it works: events, each of one level and written on one line.
-/
namespace EntryPoints

inductive Level where
  | warning
  | info
  | debug
  deriving DecidableEq, Repr

def Level.text : Level → Text
  | .warning => Text.of "WARN"
  | .info => Text.of "INFO"
  | .debug => Text.of "DEBUG"

inductive Event where
  | started (entries : Nat) (root : Path) (placeholder : Text) (reach : Reach)
  | located (found : Match)
  | settled (app name command : Text)
  | advised (app name : Text) (notice : Notice)
  | wrapperWritten (path : Path) (invoked : Text)
  deriving DecidableEq, Repr

def Origin.name : Origin → Text
  | .binaryDirectory => Text.of "BinaryDirectory"
  | .stagedTree => Text.of "StagedTree"
  | .host => Text.of "Host"

namespace Event
open Text (quoted)

def level : Event → Level
  | .started .. => .info
  | .located .. => .debug
  | .settled .. => .debug
  | .advised .. => .warning
  | .wrapperWritten .. => .info

def message : Event → Text
  | .started .. => Text.of "finalizing entry points"
  | .located .. => Text.of "located executable"
  | .settled .. => Text.of "finalized command"
  | .advised _ _ notice => notice.message
  | .wrapperWritten .. => Text.of "wrote command wrapper"

def fields : Event → List (String × Text)
  | .started entries root placeholder reach =>
    [("entries", Text.decimal entries), ("root", root.text), ("root_variable", quoted placeholder),
      ("tree_search", reach.text)]
  | .located found =>
    [("name", quoted found.name), ("path", found.path.text), ("source", found.origin.name)]
  | .settled app name command => [("app", app), ("command_name", name), ("command", command)]
  | .advised app name _ => [("app", quoted app), ("command_name", quoted name)]
  | .wrapperWritten path invoked => [("path", path.text), ("invoked", quoted invoked)]

def line (e : Event) : Text :=
  e.level.text ++ ' ' :: e.message ++
    e.fields.flatMap fun f => ' ' :: Text.of f.1 ++ '=' :: f.2

end Event

/-- The events that are shown: warnings always, the others only on demand. -/
def shown (verbose : Bool) (log : List Event) : List Event :=
  log.filter fun e => verbose || e.level = .warning

end EntryPoints
