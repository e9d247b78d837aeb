import EntryPoints.FileTree.Walk
import EntryPoints.Text.Quoted

/-!
Why an entry point cannot be settled.
-/
namespace EntryPoints

inductive Failure where
  | commandNotFound (command : Text)
  | invalidFormat (app command : Text)
  | notExecutable (app command : Text)
  | unbalancedQuotes (text : Text)
  | io (path : Path) (cause : Cause)
  deriving DecidableEq, Repr

namespace Failure
open Text (quoted)

def message : Failure → Text
  | .commandNotFound command =>
    Text.of "failed to find command " ++ quoted command ++
      Text.of ": it is not in the staged tree or on the host"
  | .invalidFormat app command =>
    Text.of "the command " ++ quoted command ++ Text.of " for app " ++ quoted app ++
      Text.of (" must be relative to the staged root and conform to the runtime command " ++
        "pattern, and no wrapper may be generated here")
  | .notExecutable app command =>
    Text.of "the command " ++ quoted command ++ Text.of " for app " ++ quoted app ++
      Text.of " is not an executable file in the staged root"
  | .unbalancedQuotes text => Text.of "no closing quotation in " ++ quoted text
  | .io path cause => path.text ++ Text.of ": " ++ cause.message

/-- The message, and below it the cause that it already ends with, if it has one. -/
def chain (f : Failure) : List Text :=
  match f with
  | .io _ cause => [f.message, cause.message]
  | _ => [f.message]

end Failure
end EntryPoints
