import EntryPoints.Directive
import EntryPoints.Notice
import EntryPoints.Stage

/-!
The runtime form of a declared command. A command that names a script is given the script's
interpreter in front and its own path anchored, so that the interpreter finds it; a command that is
not found where it says is replaced by the path that a search finds. An absolute command is left
alone, for it ends up behind a wrapper in any case.
-/
namespace EntryPoints

/-- What a declared command becomes, with the notices taken on the way and the matches of every
search that was made. There is no text exactly when a notice is fatal. -/
structure RuntimeForm where
  text? : Option Text
  notices : List Notice
  found : List Match
  deriving DecidableEq, Repr

namespace RuntimeForm

def launcher : Text := Text.of "/usr/bin/env"

/-- A directive without the launcher, if something follows it. -/
def dropLauncher : List Text → List Text
  | first :: second :: rest => if first = launcher then second :: rest else first :: second :: rest
  | ws => ws

/-- What a directive puts in front of its script: the interpreter's path and its arguments. -/
structure Front where
  words : List Text
  notices : List Notice
  found : List Match
  deriving DecidableEq, Repr

/-- The front of the script `command`. An interpreter that is not found stays as it is named, since
the runtime may still have it. -/
def front (s : Stage) (files : FileTree) (command : Text) (directive : List Text) : Front :=
  match dropLauncher directive with
  | [] => ⟨[], [], []⟩
  | interpreter :: arguments =>
    if interpreter = launcher then
      ⟨interpreter :: arguments, [.interpreterUnresolved interpreter], []⟩
    else
      match s.resolve files interpreter with
      | .missing => ⟨interpreter :: arguments, [.interpreterUnresolved interpreter], []⟩
      | .literal path => ⟨path :: arguments, [], []⟩
      | .searched path m =>
        ⟨path :: arguments, [.interpreterSearched interpreter command path m.origin], [m]⟩

/-- The notice that tells why `result` is not the declared text. -/
def explanation (s : Stage) (declared result : Text) (interpreted : Bool) : List Notice :=
  if result = declared then []
  else if Text.startsWith s.anchor declared then [.redundantAnchor declared s.anchor]
  else if interpreted then [.interpreterAdded declared result]
  else [.commandChanged declared result]

def directiveOf (s : Stage) (files : FileTree) (word : Text) : Except Failure (List Text) :=
  let path := Path.join s.root (s.relative word)
  if files.isFile path then Directive.read files path else .ok []

/-- The path as an interpreter needs it: a relative one is anchored. -/
def anchored (s : Stage) (path : Text) : Text :=
  if Path.isAbsolute path then path else s.anchor ++ path

def ofPath (s : Stage) (declared : Text) (interpreted : Bool) (f : Front) (path : Text)
    (arguments : List Text) : RuntimeForm :=
  let program := if interpreted then anchored s path else path
  let result := Words.unsplit (f.words ++ program :: arguments)
  ⟨some result, f.notices ++ explanation s declared result interpreted, f.found⟩

/-- The form of the command with the first word `word` and these arguments, given the directive of
the file that the word names. -/
def ofWords (s : Stage) (files : FileTree) (declared word : Text)
    (arguments directive : List Text) : RuntimeForm :=
  let interpreted := !directive.isEmpty
  let f := front s files word directive
  match s.resolve files word with
  | .missing => ⟨none, f.notices ++ [.commandNotFound word], f.found⟩
  | .literal path => ofPath s declared interpreted f path arguments
  | .searched path m =>
    let f : Front :=
      ⟨f.words, f.notices ++ [.commandSearched word path m.origin], f.found ++ [m]⟩
    ofPath s declared interpreted f path arguments

def ofDeclared (s : Stage) (files : FileTree) (declared : Text) : Except Failure RuntimeForm :=
  if Path.isAbsolute declared then .ok ⟨some declared, [], []⟩
  else
    let line := Text.dropStart s.anchor declared
    match Words.split line with
    | .error f => .error f
    | .ok [] => .ok ⟨none, [.commandNotFound declared], []⟩
    | .ok (word :: arguments) =>
      match directiveOf s files word with
      | .error f => .error f
      | .ok directive => .ok (ofWords s files declared word arguments directive)

end RuntimeForm
end EntryPoints
