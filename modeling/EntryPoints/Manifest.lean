import EntryPoints.EntryPoint
import EntryPoints.Json.Record

/-!
Manifests: the applications of a package, each with its entry points by name. Both stand in the
order of their names.
-/
namespace EntryPoints

/-- How an application's commands are handed to the runtime: brought into a form that it can
invoke, or as they are declared. -/
inductive Adapter where
  | legacy
  | verbatim
  deriving DecidableEq, Repr

def Adapter.policy : Adapter → Policy
  | .legacy => ⟨true, true⟩
  | .verbatim => ⟨false, false⟩

def Adapter.text : Adapter → Text
  | .legacy => Text.of "legacy"
  | .verbatim => Text.of "none"

structure App where
  adapter : Adapter := .legacy
  commands : Table Text Text
  deriving DecidableEq, Repr

structure Manifest where
  apps : Table Text App
  deriving DecidableEq, Repr

namespace Manifest

def adapterOfJson? (v : Json) : Option Adapter := do
  let name ← v.choice?
  if name = Adapter.text .legacy then some .legacy
  else if name = Adapter.text .verbatim then some .verbatim
  else none

/-- An object as a table. Of members with one name the last counts, but every one has to fit. -/
def tableOfJson? {α : Type} (value? : Json → Option α) (v : Json) : Option (Table Text α) := do
  let members ← v.members?
  let entries ← members.mapM fun m => (value? m.2).map (m.1, ·)
  some (.ofList entries)

def appOfJson? (v : Json) : Option App := do
  match ← v.fields? [Text.of "adapter", Text.of "commands"] with
  | [adapter, some commands] =>
    let adapter ← adapter.elim (some .legacy) adapterOfJson?
    let commands ← tableOfJson? Json.text? commands
    some ⟨adapter, commands⟩
  | _ => none

def ofJson? (v : Json) : Option Manifest := do
  match ← v.fields? [Text.of "apps"] with
  | [some apps] => (tableOfJson? appOfJson? apps).map (⟨·⟩)
  | _ => none

def tableJson {α : Type} (value : α → Json) (t : Table Text α) : Json :=
  .object (t.entries.map fun (name, v) => (some name, value v))

def appJson (a : App) : Json :=
  .object [Json.member "adapter" (.text a.adapter.text),
    Json.member "commands" (tableJson .text a.commands)]

def json (m : Manifest) : Json := .object [Json.member "apps" (tableJson appJson m.apps)]

def entryPoints (m : Manifest) : List (EntryPoint × Adapter) :=
  m.apps.entries.flatMap fun (app, a) =>
    a.commands.entries.map fun (name, command) => (.declare app name command, a.adapter)

end Manifest
end EntryPoints
