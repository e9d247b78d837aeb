import EntryPoints.Documents

/-!
A run over a manifest. Every entry point is settled before any wrapper is written, so a command
that cannot be settled leaves the files as they are.
-/
namespace EntryPoints

structure Entry where
  app : Text
  name : Text
  command : Text
  wrapper? : Option Path
  notices : List Notice
  deriving DecidableEq, Repr

namespace Entry

/-- The members that tell the wrapper. A path that is no text has none. -/
def wrapperMembers? (e : Entry) : Option (List (Option Text × Json)) :=
  match e.wrapper? with
  | none => some []
  | some path => (Text.Utf8.strict? path).map fun t => [Json.member "wrapper" (.text t)]

def json? (e : Entry) : Option Json :=
  e.wrapperMembers?.map fun wrapper =>
    .object ([Json.member "app" (.text e.app), Json.member "name" (.text e.name),
      Json.member "command" (.text e.command)] ++ wrapper ++
      if e.notices = [] then []
      else [Json.member "diagnostics" (.array (e.notices.map Notice.json))])

/-- The command on a line, and its wrapper on the next if it has one. -/
def lines (e : Entry) : Text :=
  e.app ++ '.' :: e.name ++ Text.of ": " ++ e.command ++ '\n' ::
    match e.wrapper? with
    | some path => Text.of "  wrapper: " ++ path.text ++ ['\n']
    | none => []

end Entry

def reportJson? (entries : List Entry) : Option Json :=
  (entries.mapM Entry.json?).map fun items => .object [Json.member "entries" (.array items)]

def reportText (entries : List Entry) : Text := entries.flatMap Entry.lines

structure Run where
  outcome : Except RunFailure (List Entry)
  files : FileTree
  log : List Event

namespace Run

/-- Settles one declared entry point and tells its notices. -/
def settleOne (s : Stage) (files : FileTree) (e : EntryPoint) (a : Adapter) :
    Except RunFailure EntryPoint × List Event :=
  let settled := e.settle a.policy s files
  let log := settled.log ++
    (advisories settled.entry.notices).map (.advised settled.entry.app settled.entry.name)
  match settled.outcome with
  | .ok _ => (.ok settled.entry, log)
  | .error f => (.error (.unsettled settled.entry.app settled.entry.name f), log)

/-- Settles entry points in order, up to the first that cannot be. -/
def settleAll (s : Stage) (files : FileTree) :
    List (EntryPoint × Adapter) → Except RunFailure (List EntryPoint) × List Event
  | [] => (.ok [], [])
  | (e, a) :: rest =>
    match settleOne s files e a with
    | (.error f, log) => (.error f, log)
    | (.ok settled, log) =>
      let (others, more) := settleAll s files rest
      (others.map (settled :: ·), log ++ more)

/-- Writes the wrappers of settled entry points in order, up to the first that cannot be. -/
def writeAll (s : Stage) (files : FileTree) : List EntryPoint → Run
  | [] => ⟨.ok [], files, []⟩
  | e :: rest =>
    match e.writeWrapper s files with
    | .error f => ⟨.error (.wrapperUnwritten e.wrapperName f), files, []⟩
    | .ok (files, wrapper?, log) =>
      let others := writeAll s files rest
      ⟨others.outcome.map (⟨e.app, e.name, e.command, wrapper?, e.notices⟩ :: ·),
        others.files, log ++ others.log⟩

def ofManifest (s : Stage) (files : FileTree) (m : Manifest) : Run :=
  let entries := m.entryPoints
  let start : Event := .started entries.length s.root s.placeholder s.search.reach
  match settleAll s files entries with
  | (.error f, log) => ⟨.error f, files, start :: log⟩
  | (.ok settled, log) =>
    let written := writeAll s files settled
    { written with log := start :: log ++ written.log }

end Run
end EntryPoints
