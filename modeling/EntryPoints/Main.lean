import EntryPoints.CommandLine.Outcome
import EntryPoints.FileTree.Document

/-!
The command line. The files of the package come on standard input as the document of a tree;
wrappers are written to where that tree has them, and the host is asked for what the tree has in the
directories of the search path.
-/
namespace EntryPoints.Terminal

def printTo (out : IO.FS.Stream) (t : Text) : IO Unit := out.putStr (String.ofList t)

partial def readAll (input : IO.FS.Stream) (sofar : ByteArray) : IO ByteArray := do
  let part ← input.read 65536
  if part.isEmpty then return sofar else readAll input (sofar ++ part)

def newFiles (old new : FileTree) : List (Location × File) :=
  (new.below []).filterMap fun (place, node) =>
    match node with
    | .file f => if old.node? place = some node then none else some (place, f)
    | _ => none

/-- The host of the running program, by the directories of its search path. Theorems take any
host. -/
def hostOf (files : FileTree) (searchPath : Text) : Host where
  find? name :=
    if name.contains '/' then none
    else
      let ds := (Text.cut ':' searchPath).filter (· ≠ [])
      (ds.map fun (dir : Text) => Path.join dir name).find? files.isExecutable

def writeFile (place : Location) (f : File) : IO Unit := do
  let path := String.ofList place.path.text
  IO.FS.writeBinFile path ⟨f.bytes.toArray⟩
  let rights (bits : Nat) : IO.AccessRight :=
    ⟨bits &&& 4 ≠ 0, bits &&& 2 ≠ 0, bits &&& 1 ≠ 0⟩
  IO.setAccessRights path ⟨rights (f.mode / 64), rights (f.mode / 8), rights f.mode⟩

def respond (files : FileTree) (i : CommandLine.Invocation) : IO UInt32 := do
  let host := hostOf files ((← IO.getEnv "PATH").getD "").toList
  let outcome := CommandLine.answer files host i
  let err ← IO.getStderr
  for (place, f) in newFiles files outcome.files do
    writeFile place f
  for event in outcome.log do
    printTo err (event.line ++ ['\n'])
  if let some f := outcome.failure? then
    printTo err (CommandLine.failureText f ++ ['\n'])
  printTo (← IO.getStdout) outcome.stdout
  return outcome.exit.toUInt32

end EntryPoints.Terminal

open EntryPoints EntryPoints.Terminal

def main (args : List String) : IO UInt32 := do
  match CommandLine.invocation false (args.map String.toList) with
  | .error fault =>
    printTo (← IO.getStderr) (Text.of "error: " ++ fault.message ++ ['\n'])
    return 2
  | .ok i =>
    match i.request with
    | .prime _ =>
      let bytes ← readAll (← IO.getStdin) .empty
      match (Json.ofBytes? bytes.data.toList).bind FileTree.ofJson? with
      | some files => respond files i
      | none =>
        printTo (← IO.getStderr) (Text.of "error: standard input holds no document of a tree\n")
        return 1
    | _ => respond .empty i
