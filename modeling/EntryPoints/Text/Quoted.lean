import EntryPoints.Path
import EntryPoints.Text.Hidden

/-!
Quoted text, as messages show it: between double quotes, on one line, with every hidden character
spelled out. A single quote stands as it is. A quoted path spells out the bytes that are no
character as well.
-/
namespace EntryPoints

namespace Text

def quotedChar (c : Char) : Text :=
  if c = '"' then ['\\', '"']
  else if c = '\\' then ['\\', '\\']
  else if c = '\n' then ['\\', 'n']
  else if c = '\r' then ['\\', 'r']
  else if c = '\t' then ['\\', 't']
  else if c = '\x00' then ['\\', '0']
  else if isHidden c then ['\\', 'u', '\x7b'] ++ hexadecimal c.toNat ++ ['\x7d']
  else [c]

def quoted (t : Text) : Text := '"' :: t.flatMap quotedChar ++ ['"']

end Text

namespace Path

def quotedByte (byte : UInt8) : Text :=
  ['\\', 'x'] ++ (Text.hexadecimal byte.toNat).map Char.toUpper

/-- What the quotes hold, from the byte on that comes after those of the character before. -/
def quotedFrom : Nat → Path → Text
  | _, [] => []
  | skip + 1, _ :: rest => quotedFrom skip rest
  | 0, byte :: rest =>
    match Text.Utf8.decode (byte :: rest) with
    | some c :: _ => Text.quotedChar c ++ quotedFrom (c.utf8Size - 1) rest
    | _ => quotedByte byte ++ quotedFrom 0 rest

def quoted (p : Path) : Text := '"' :: quotedFrom 0 p ++ ['"']

end Path
end EntryPoints
