import EntryPoints.Failure
import EntryPoints.Json
import EntryPoints.Search

/-!
Notices record, in order, what happened while a command was brought into its runtime form. One
kind is fatal, the others only advise.
-/
namespace EntryPoints

def Origin.text : Origin → Text
  | .binaryDirectory => Text.of "binary_directory"
  | .stagedTree => Text.of "staged_tree"
  | .host => Text.of "host"

inductive Notice where
  | commandNotFound (command : Text)
  | commandSearched (command resolved : Text) (origin : Origin)
  | interpreterUnresolved (interpreter : Text)
  | interpreterSearched (interpreter command resolved : Text) (origin : Origin)
  | redundantAnchor (command anchor : Text)
  | interpreterAdded (command result : Text)
  | commandChanged (command result : Text)
  | wrapperGenerated (app command : Text)
  deriving DecidableEq, Repr

namespace Notice
open Text (quoted)

/-- Whether a command fails for the notice. -/
inductive Severity where
  | advisory
  | fatal
  deriving DecidableEq, Repr

def severity : Notice → Severity
  | .commandNotFound _ => .fatal
  | _ => .advisory

def isFatal (n : Notice) : Bool := n.severity = .fatal

def failure? : Notice → Option Failure
  | .commandNotFound command => some (.commandNotFound command)
  | _ => none

theorem isFatal_eq_isSome_failure? (n : Notice) : n.isFatal = n.failure?.isSome := by
  cases n <;> rfl

/-- Something was found only outside the known directories. -/
def usedFallback : Notice → Bool
  | .commandSearched _ _ origin => origin.isFallback
  | .interpreterSearched _ _ _ origin => origin.isFallback
  | _ => false

def message : Notice → Text
  | .commandNotFound command => Text.of "failed to find command " ++ quoted command
  | .commandSearched command resolved _ =>
    Text.of "the command " ++ quoted command ++
      Text.of " was not found in the staged root, but found " ++ quoted resolved
  | .interpreterUnresolved interpreter =>
    Text.of "unable to find interpreter in any paths: " ++ quoted interpreter
  | .interpreterSearched interpreter command resolved _ =>
    Text.of "the interpreter " ++ quoted interpreter ++ Text.of " for " ++ quoted command ++
      Text.of " was resolved to " ++ quoted resolved
  | .redundantAnchor command anchor =>
    Text.of "found unneeded " ++ quoted anchor ++ Text.of " in command " ++ quoted command
  | .interpreterAdded command result =>
    Text.of "the command " ++ quoted command ++ Text.of " has been changed to " ++ quoted result ++
      Text.of " to safely account for the interpreter"
  | .commandChanged command result =>
    Text.of "the command " ++ quoted command ++ Text.of " has been changed to " ++ quoted result
  | .wrapperGenerated _ command =>
    Text.of "a shell wrapper will be generated for command " ++ quoted command ++
      Text.of (" as it does not conform with the command pattern expected by the runtime. " ++
        "Commands must be relative to the staged root and can only consist of alphanumeric " ++
        "characters, spaces, and the following special characters: / . _ # : $ -")

def json (n : Notice) : Json :=
  let kind (k : String) (fields : List (String × Text)) : Json :=
    .object (Json.member "kind" (.text (.of k)) ::
      fields.map fun f => Json.member f.1 (.text f.2))
  match n with
  | .commandNotFound command => kind "command_not_found" [("command", command)]
  | .commandSearched command resolved origin =>
    kind "command_searched"
      [("command", command), ("resolved", resolved), ("source", origin.text)]
  | .interpreterUnresolved interpreter =>
    kind "interpreter_unresolved" [("interpreter", interpreter)]
  | .interpreterSearched interpreter command resolved origin =>
    kind "interpreter_searched"
      [("interpreter", interpreter), ("command", command), ("resolved", resolved),
        ("source", origin.text)]
  | .redundantAnchor command anchor =>
    kind "redundant_root_prefix" [("command", command), ("prefix", anchor)]
  | .interpreterAdded command result =>
    kind "rewritten_for_interpreter" [("command", command), ("rewritten", result)]
  | .commandChanged command result =>
    kind "rewritten_command" [("command", command), ("rewritten", result)]
  | .wrapperGenerated app command =>
    kind "wrapper_generated" [("app", app), ("command", command)]

end Notice

def advisories (ns : List Notice) : List Notice := ns.filter (!·.isFatal)

def firstFailure? (ns : List Notice) : Option Failure := ns.findSome? Notice.failure?

end EntryPoints
