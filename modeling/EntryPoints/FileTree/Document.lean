import EntryPoints.FileTree.Build
import EntryPoints.Json.Record

/-!
A tree as a JSON document: an array with an object for every node. Each has a path and, by its
kind, the bytes and the permission bits of a file, the target of a link, or the mark of a
directory. Contents that are no text are written in hexadecimal; paths are shown as texts.
-/
namespace EntryPoints.FileTree

def hexDigit? (c : Char) : Option Nat :=
  if c.isDigit then some (c.toNat - '0'.toNat)
  else if 'a' ≤ c && c ≤ 'f' then some (c.toNat - 'a'.toNat + 10)
  else none

def bytesOfHex? : Text → Option (List UInt8)
  | [] => some []
  | [_] => none
  | a :: b :: rest => do
    let high ← hexDigit? a
    let low ← hexDigit? b
    let bytes ← bytesOfHex? rest
    some (UInt8.ofNat (16 * high + low) :: bytes)

def hexOfBytes (bytes : List UInt8) : Text :=
  bytes.flatMap fun b => [Nat.digitChar (b.toNat / 16), Nat.digitChar (b.toNat % 16)]

/-- Permission bits by their octal digits. -/
def modeOfText? (digits : Text) : Option Nat :=
  if digits.all fun c => '0' ≤ c && c ≤ '7' then
    some (digits.foldl (fun n c => 8 * n + (c.toNat - '0'.toNat)) 0)
  else none

def contentMember (bytes : List UInt8) : Option Text × Json :=
  match Text.Utf8.strict? bytes with
  | some t => Json.member "text" (.text t)
  | none => Json.member "hex" (.text (hexOfBytes bytes))

def nodeMembers : Node → List (Option Text × Json)
  | .directory => [Json.member "dir" (.bool true)]
  | .link target => [Json.member "link" (.text (Path.text target))]
  | .file f =>
    [Json.member "mode" (.text (Text.octal (f.mode % 4096))), contentMember f.bytes]

def json (files : FileTree) (p : Path) : Json :=
  .array ((files.listing p).entries.map fun (path, node) =>
    .object (Json.member "path" (.text (Path.text path)) :: nodeMembers node))

/-- The node that an object tells of. A file is empty and may be executed, unless told otherwise. -/
def nodeOfMembers? (members : List (Text × Json)) : Option Node :=
  let value? (name : String) : Option Json :=
    (members.find? (·.1 = Text.of name)).map Prod.snd
  match value? "link", value? "dir" with
  | some target, _ => target.text?.map fun t => .link t
  | none, some (.bool true) => some .directory
  | none, _ => do
    let mode ← (value? "mode").elim (some 0o755) fun v => v.text?.bind modeOfText?
    let bytes ←
      match value? "text", value? "hex" with
      | some t, _ => t.text?.map Text.Utf8.encode
      | none, some h => h.text?.bind bytesOfHex?
      | none, none => some []
    some (.file ⟨bytes, mode⟩)

def addNode (files : FileTree) (p : Path) : Node → Except Cause FileTree
  | .directory => files.makeDirectories p
  | .link target => files.addLink p target
  | .file f => files.addFile p f

/-- Adds what one object of a document tells of, its path being seen from `base`. -/
def addJson? (files : FileTree) (base : Path) (v : Json) : Option FileTree := do
  let members ← v.members?
  let path ← (members.find? (·.1 = Text.of "path")).bind (·.2.text?)
  let node ← nodeOfMembers? members
  (files.addNode (Path.join base path) node).toOption

def ofJson? : Json → Option FileTree
  | .array items => items.foldlM (addJson? · [Path.slash] ·) empty
  | _ => none

end EntryPoints.FileTree
