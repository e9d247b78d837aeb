import EntryPoints.Text

/-!
JSON values and their two written forms, on one line or indented by two spaces. The members of an
object keep their order. A string has no content where its spelling stands for no text, and a
number is kept as it is spelled.
-/
namespace EntryPoints

inductive Json where
  | null
  | bool (b : Bool)
  | number (spelling : Text)
  | string (content : Option Text)
  | array (items : List Json)
  | object (members : List (Option Text × Json))
  deriving Inhabited

namespace Json

def text (t : Text) : Json := .string (some t)

def natural (n : Nat) : Json := .number (Text.decimal n)

def member (name : String) (value : Json) : Option Text × Json := (some (.of name), value)

/-- A character inside a written string. Quotes, backslashes and controls are escaped. -/
def writtenChar (c : Char) : Text :=
  if c = '"' then ['\\', '"']
  else if c = '\\' then ['\\', '\\']
  else if c = '\n' then ['\\', 'n']
  else if c = '\r' then ['\\', 'r']
  else if c = '\t' then ['\\', 't']
  else if c = '\x08' then ['\\', 'b']
  else if c = '\x0c' then ['\\', 'f']
  else if c.toNat < 0x20 then
    ['\\', 'u', '0', '0', Nat.digitChar (c.toNat / 16), Nat.digitChar (c.toNat % 16)]
  else [c]

def writtenString (content : Option Text) : Text :=
  '"' :: (content.getD []).flatMap writtenChar ++ ['"']

mutual

def compact : Json → Text
  | .null => Text.of "null"
  | .bool b => if b then Text.of "true" else Text.of "false"
  | .number spelling => spelling
  | .string content => writtenString content
  | .array items => '[' :: compactItems items ++ [']']
  | .object members => '\x7b' :: compactMembers members ++ ['\x7d']

def compactItems : List Json → Text
  | [] => []
  | [v] => v.compact
  | v :: rest => v.compact ++ ',' :: compactItems rest

def compactMembers : List (Option Text × Json) → Text
  | [] => []
  | [(name, v)] => writtenString name ++ ':' :: v.compact
  | (name, v) :: rest => writtenString name ++ ':' :: v.compact ++ ',' :: compactMembers rest

end

def newline (depth : Nat) : Text := '\n' :: List.replicate (2 * depth) ' '

mutual

/-- The value as it stands `depth` levels deep in a document with a line for every item. -/
def indented (depth : Nat) : Json → Text
  | .null => Text.of "null"
  | .bool b => if b then Text.of "true" else Text.of "false"
  | .number spelling => spelling
  | .string content => writtenString content
  | .array [] => Text.of "[]"
  | .array (v :: rest) =>
    '[' :: newline (depth + 1) ++ v.indented (depth + 1) ++ indentedItems (depth + 1) rest ++
      newline depth ++ [']']
  | .object [] => ['\x7b', '\x7d']
  | .object ((name, v) :: rest) =>
    '\x7b' :: newline (depth + 1) ++ writtenString name ++ Text.of ": " ++ v.indented (depth + 1) ++
      indentedMembers (depth + 1) rest ++ newline depth ++ ['\x7d']

def indentedItems (depth : Nat) : List Json → Text
  | [] => []
  | v :: rest => ',' :: newline depth ++ v.indented depth ++ indentedItems depth rest

def indentedMembers (depth : Nat) : List (Option Text × Json) → Text
  | [] => []
  | (name, v) :: rest =>
    ',' :: newline depth ++ writtenString name ++ Text.of ": " ++ v.indented depth ++
      indentedMembers depth rest

end

def pretty (v : Json) : Text := v.indented 0

end Json
end EntryPoints
