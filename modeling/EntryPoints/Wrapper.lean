import EntryPoints.Failure
import EntryPoints.FileTree.Access

/-!
Wrappers: two-line shell scripts that stand in for a command that the runtime cannot invoke.
-/
namespace EntryPoints

namespace Wrapper

/-- The script that runs `invoked` with the arguments it is given itself. -/
def script (invoked : Text) : Text :=
  Text.of "#!/bin/sh\nexec " ++ invoked ++ Text.of " \"$@\"\n"

def file (invoked : Text) : File := ⟨Text.Utf8.encode (script invoked), 0o755⟩

def write (files : FileTree) (path : Path) (invoked : Text) : Except Failure FileTree :=
  (files.store path (file invoked)).mapError (.io path)

end Wrapper
end EntryPoints
