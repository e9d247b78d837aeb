import EntryPoints.CommandLine.Arguments
import EntryPoints.Run

/-!
What the command line answers: an exit code, text on standard output, events for the log, a failure
if there was one, and the files as they are afterwards.
-/
namespace EntryPoints.CommandLine

structure Outcome where
  exit : Nat
  stdout : Text
  log : List Event
  failure? : Option RunFailure
  files : FileTree

/-- A depth is spelled by digits, with a plus sign in front if one likes. -/
def depth? (word : Text) : Option Nat :=
  let digits := if word.head? = some '+' then word.tail else word
  if digits = [] then none else (Json.number digits).natural?

def reach? (word : Text) : Option Reach :=
  if word = Text.of "full" then some .full
  else if word = Text.of "disabled" then some .disabled
  else (depth? word).map .bounded

def applyArguments (a : PrimeArguments) (s : Settings) : Except RunFailure Settings := do
  let s := if a.binDirs = [] then s else { s with binDirs := a.binDirs }
  let s ←
    match a.reach? with
    | none => .ok s
    | some word =>
      match reach? word with
      | some reach => .ok { s with reach }
      | none => .error (.unknownReach word)
  let s := match a.placeholder? with
    | some placeholder => { s with placeholder }
    | none => s
  s.check

def settings (files : FileTree) (a : PrimeArguments) : Except RunFailure Settings := do
  let s ←
    match a.settings? with
    | some path => Settings.load files path
    | none => .ok {}
  applyArguments a s

def prepare (files : FileTree) (host : Host) (a : PrimeArguments) :
    Except RunFailure (Stage × Manifest) := do
  let root ← (files.canonical a.root).mapError (.unresolvedRoot a.root)
  if files.isDirectory root then
    let s ← settings files a
    let m ← Manifest.load files a.manifest
    .ok (s.stage files root host, m)
  else .error (.rootNotADirectory root)

def reportOf (json : Bool) (entries : List Entry) : Except RunFailure Text :=
  if json then
    match reportJson? entries with
    | some report => .ok (report.pretty ++ ['\n'])
    | none => .error .unwritableReport
  else .ok (reportText entries)

def prime (files : FileTree) (host : Host) (a : PrimeArguments) : Outcome :=
  match prepare files host a with
  | .error f => ⟨1, [], [], some f, files⟩
  | .ok (stage, m) =>
    let run := Run.ofManifest stage files m
    match run.outcome with
    | .error f => ⟨1, [], run.log, some f, run.files⟩
    | .ok entries =>
      match reportOf a.json entries with
      | .error f => ⟨1, [], run.log, some f, run.files⟩
      | .ok text => ⟨0, text, run.log, none, run.files⟩

def yesNo (b : Bool) : Text := if b then Text.of "true" else Text.of "false"

def check (files : FileTree) (command : Text) : Outcome :=
  let text := Text.of "grammar_valid: " ++ yesNo (isInvocable command) ++
    Text.of "\nrequires_wrapper: " ++ yesNo (needsWrapper command) ++ ['\n']
  ⟨if needsWrapper command then 1 else 0, text, [], none, files⟩

def versionText : Text := Text.of "primecmd 0.1.0\n"

def helpText : Text :=
  Text.of ("Finalize packaged application entry points into runtime-invocable commands\n\n" ++
    "Usage: primecmd [--verbose] prime --root <DIR> --apps <FILE> [--config <FILE>]\n" ++
    "         [--bin-dir <DIR>]... [--tree-search <MODE>] [--root-variable <TOKEN>] [--json]\n" ++
    "       primecmd [--verbose] check <COMMAND>\n")

def answer (files : FileTree) (host : Host) (i : Invocation) : Outcome :=
  match i.request with
  | .help => ⟨0, helpText, [], none, files⟩
  | .version => ⟨0, versionText, [], none, files⟩
  | .check command => check files command
  | .prime a =>
    let outcome := prime files host a
    { outcome with log := shown i.verbose outcome.log }

/-- The lines of a text after the first stand `width` columns in. -/
def hanging (width : Nat) (t : Text) : Text :=
  t.flatMap fun c => if c = '\n' then '\n' :: List.replicate width ' ' else [c]

/-- A failure as it is shown: what failed, and its causes below, numbered if there are several. -/
def failureText (f : RunFailure) : Text :=
  match f.chain with
  | [] => []
  | [what] => Text.of "Error: " ++ what
  | [what, cause] =>
    Text.of "Error: " ++ what ++ Text.of "\n\nCaused by:\n    " ++ hanging 4 cause
  | what :: causes =>
    Text.of "Error: " ++ what ++ Text.of "\n\nCaused by:" ++
      causes.zipIdx.flatMap fun (cause, n) =>
        let number := Text.decimal n
        '\n' :: List.replicate (5 - number.length) ' ' ++ number ++ Text.of ": " ++ hanging 7 cause

end EntryPoints.CommandLine
