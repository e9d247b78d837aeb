import EntryPoints.Invocable
import EntryPoints.Log
import EntryPoints.RuntimeForm
import EntryPoints.Wrapper

/-!
Entry points of an application. The command of one only moves forward: from the declared text to
its runtime form, and from there, if the runtime cannot invoke that, to the name of a wrapper. Once
it is wrapped, it stays as it is.
-/
namespace EntryPoints

/-- What may be done to a command: bring it into its runtime form, and put a wrapper before it. -/
structure Policy where
  mayWrap : Bool
  adapts : Bool
  deriving DecidableEq, Repr

/-- One entry point: the command as it is known by now, the command that its wrapper runs, and
every notice that was taken so far. -/
structure EntryPoint where
  app : Text
  name : Text
  command : Text
  wrapped? : Option Text
  notices : List Notice
  deriving DecidableEq, Repr

namespace EntryPoint

def declare (app name command : Text) : EntryPoint := ⟨app, name, command, none, []⟩

def wrapperName (e : EntryPoint) : Text := e.name ++ '-' :: e.app ++ Text.of ".wrapper"

def requiresWrapper (e : EntryPoint) : Bool := needsWrapper (e.wrapped?.getD e.command)

structure Settlement where
  outcome : Except Failure Text
  entry : EntryPoint
  log : List Event

def wrap (e : EntryPoint) : EntryPoint :=
  { e with
    command := e.wrapperName
    wrapped? := some e.command
    notices := e.notices ++
      if isInvocable e.command then [] else [.wrapperGenerated e.app e.command] }

/-- Passes if the command's first word is an executable file of the staged root. -/
def checkRunnable (e : EntryPoint) (s : Stage) (files : FileTree) : Except Failure Unit :=
  match Words.split e.command with
  | .error f => .error f
  | .ok [] => .error (.notExecutable e.app e.command)
  | .ok (word :: _) =>
    if files.isExecutable (Path.join s.root word) then .ok ()
    else .error (.notExecutable e.app e.command)

/-- Brings the command into its runtime form. The notices are kept even if one is fatal. -/
def adapt (e : EntryPoint) (s : Stage) (files : FileTree) : Settlement :=
  match RuntimeForm.ofDeclared s files e.command with
  | .error f => ⟨.error f, e, []⟩
  | .ok form =>
    let log := form.found.map Event.located
    let e := { e with notices := e.notices ++ form.notices }
    match firstFailure? form.notices with
    | some f => ⟨.error f, e, log⟩
    | none =>
      let e := { e with command := form.text?.getD e.command }
      ⟨.ok e.command, e, log⟩

def settled (e : EntryPoint) : Settlement :=
  ⟨.ok e.command, e, [.settled e.app e.name e.command]⟩

/-- Decides on the command as it stands: it goes behind a wrapper, or is runnable itself. -/
def conclude (e : EntryPoint) (p : Policy) (s : Stage) (files : FileTree) : Settlement :=
  if e.requiresWrapper then
    if p.mayWrap then e.wrap.settled else ⟨.error (.invalidFormat e.app e.command), e, []⟩
  else
    match e.checkRunnable s files with
    | .ok () => e.settled
    | .error f => ⟨.error f, e, []⟩

def settle (e : EntryPoint) (p : Policy) (s : Stage) (files : FileTree) : Settlement :=
  if e.wrapped?.isSome then ⟨.ok e.command, e, []⟩
  else if p.adapts then
    let adapted := e.adapt s files
    match adapted.outcome with
    | .error f => ⟨.error f, adapted.entry, adapted.log⟩
    | .ok _ =>
      let concluded := adapted.entry.conclude p s files
      { concluded with log := adapted.log ++ concluded.log }
  else e.conclude p s files

/-- What the wrapper runs: a relative command is anchored. -/
def invoked (s : Stage) (wrapped : Text) : Text :=
  if Path.isAbsolute wrapped then wrapped else s.anchor ++ wrapped

def wrapperPath (e : EntryPoint) (s : Stage) : Path := Path.join s.root e.wrapperName

def writeWrapper (e : EntryPoint) (s : Stage) (files : FileTree) :
    Except Failure (FileTree × Option Path × List Event) :=
  match e.wrapped? with
  | none => .ok (files, none, [])
  | some wrapped =>
    let path := e.wrapperPath s
    let text := invoked s wrapped
    match Wrapper.write files path text with
    | .ok files => .ok (files, some path, [.wrapperWritten path text])
    | .error f => .error f

end EntryPoint
end EntryPoints
