import EntryPoints.Json

/-!
Records in JSON. A record is an object with known member names, each at most once, or an array of
the values in the order of those names; values at its end may be left out.
-/
namespace EntryPoints.Json

def text? : Json → Option Text
  | .string content => content
  | _ => none

def texts? : Json → Option (List Text)
  | .array items => items.mapM text?
  | _ => none

def naturalLimit : Nat := 18446744073709551616

def natural? : Json → Option Nat
  | .number spelling =>
    if spelling.all Char.isDigit then
      let n := spelling.foldl (fun n c => 10 * n + (c.toNat - '0'.toNat)) 0
      if n < naturalLimit then some n else none
    else none
  | _ => none

def members? : Json → Option (List (Text × Json))
  | .object members => members.mapM fun m => m.1.map (·, m.2)
  | _ => none

/-- The values of a record, as far as they are given. -/
def fields? (names : List Text) : Json → Option (List (Option Json))
  | .array items =>
    if items.length ≤ names.length then
      some (items.map some ++ List.replicate (names.length - items.length) none)
    else none
  | v => do
    let members ← v.members?
    if members.all (fun m => names.contains m.1) && decide (members.map Prod.fst).Nodup then
      some (names.map fun name => (members.find? (·.1 = name)).map Prod.snd)
    else none

/-- The name of a choice, which stands alone or in an object with nothing beside it. -/
def choice? (v : Json) : Option Text :=
  match v with
  | .string content => content
  | .object [(some name, .null)] => some name
  | _ => none

end EntryPoints.Json
