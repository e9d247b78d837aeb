import EntryPoints.Json
import EntryPoints.Text.Utf8

/-!
Reading JSON. The reader checks the form of a document only; whether a string spells a text is left
to the string, so that one in a place that nobody looks at may hold anything.
-/
namespace EntryPoints.Json

/-- The characters still to be read, `none` standing for bytes that are no character. -/
abbrev Input := List (Option Char)

def isSpace (c : Option Char) : Bool :=
  c = some ' ' || c = some '\n' || c = some '\t' || c = some '\r'

def skipSpace (input : Input) : Input := input.dropWhile isSpace

def afterWord? : Text → Input → Option Input
  | [], input => some input
  | _ :: _, [] => none
  | c :: word, d :: input => if d = some c then afterWord? word input else none

/-- A part of a string: a character, a code unit that an escape spells, or bytes that are no
character. -/
inductive Piece where
  | char (c : Char)
  | codeUnit (n : Nat)
  | illFormed

def hexDigit? : Option Char → Option Nat
  | some c =>
    let n := c.toNat
    if '0'.toNat ≤ n ∧ n ≤ '9'.toNat then some (n - '0'.toNat)
    else if 'a'.toNat ≤ n ∧ n ≤ 'f'.toNat then some (n - 'a'.toNat + 10)
    else if 'A'.toNat ≤ n ∧ n ≤ 'F'.toNat then some (n - 'A'.toNat + 10)
    else none
  | none => none

def codeUnit? (a b c d : Option Char) : Option Nat := do
  let a ← hexDigit? a
  let b ← hexDigit? b
  let c ← hexDigit? c
  let d ← hexDigit? d
  some (((a * 16 + b) * 16 + c) * 16 + d)

def escaped? (c : Char) : Option Char :=
  if c = '"' || c = '\\' || c = '/' then some c
  else if c = 'n' then some '\n'
  else if c = 'r' then some '\r'
  else if c = 't' then some '\t'
  else if c = 'b' then some '\x08'
  else if c = 'f' then some '\x0c'
  else none

/-- The pieces of a string up to its closing quote, and what follows it. -/
def pieces? : Input → Option (List Piece × Input)
  | [] => none
  | none :: rest => (pieces? rest).map fun r => (.illFormed :: r.1, r.2)
  | some '"' :: rest => some ([], rest)
  | some '\\' :: some 'u' :: a :: b :: c :: d :: rest =>
    match codeUnit? a b c d with
    | some n => (pieces? rest).map fun r => (.codeUnit n :: r.1, r.2)
    | none => none
  | some '\\' :: some c :: rest =>
    match escaped? c with
    | some c => (pieces? rest).map fun r => (.char c :: r.1, r.2)
    | none => none
  | some '\\' :: _ => none
  | some c :: rest =>
    if c.toNat < 0x20 then none else (pieces? rest).map fun r => (.char c :: r.1, r.2)

/-- The text of a string. Two code units of a surrogate pair make one character; one that stands
alone makes none, and then there is no text. -/
def content? : List Piece → Option Text
  | [] => some []
  | .char c :: rest => (content? rest).map (c :: ·)
  | .codeUnit high :: .codeUnit low :: rest =>
    if high < 0xd800 ∨ 0xe000 ≤ high then
      (content? (.codeUnit low :: rest)).map (Char.ofNat high :: ·)
    else if high < 0xdc00 ∧ 0xdc00 ≤ low ∧ low < 0xe000 then
      (content? rest).map (Char.ofNat (0x10000 + (high - 0xd800) * 0x400 + (low - 0xdc00)) :: ·)
    else none
  | .codeUnit n :: rest =>
    if n < 0xd800 ∨ 0xe000 ≤ n then (content? rest).map (Char.ofNat n :: ·) else none
  | .illFormed :: _ => none

def string? (input : Input) : Option (Option Text × Input) :=
  (pieces? input).map fun r => (content? r.1, r.2)

def digits? (input : Input) : Option (Text × Input) :=
  let front := input.takeWhile fun c => c.any Char.isDigit
  if front = [] then none else some (front.filterMap id, input.drop front.length)

def sign : Input → Text × Input
  | some '-' :: rest => (['-'], rest)
  | input => ([], input)

/-- The digits in front of a point, with no needless zero among them. -/
def whole? : Input → Option (Text × Input)
  | some '0' :: rest => some (['0'], rest)
  | input => digits? input

/-- A point and digits, or nothing. -/
def fraction? : Input → Option (Text × Input)
  | some '.' :: rest => (digits? rest).map fun r => ('.' :: r.1, r.2)
  | input => some ([], input)

/-- A power of ten, which is spelled with a small letter, or nothing. -/
def exponent? : Input → Option (Text × Input)
  | some 'e' :: some '+' :: rest | some 'E' :: some '+' :: rest =>
    (digits? rest).map fun r => (['e', '+'] ++ r.1, r.2)
  | some 'e' :: some '-' :: rest | some 'E' :: some '-' :: rest =>
    (digits? rest).map fun r => (['e', '-'] ++ r.1, r.2)
  | some 'e' :: rest | some 'E' :: rest => (digits? rest).map fun r => ('e' :: r.1, r.2)
  | input => some ([], input)

def number? (input : Input) : Option (Text × Input) := do
  let (minus, input) := sign input
  let (whole, input) ← whole? input
  let (fraction, input) ← fraction? input
  let (exponent, input) ← exponent? input
  some (minus ++ whole ++ fraction ++ exponent, input)

mutual

/-- The value at the front, which may lie `fuel` calls deep. -/
def valueFrom? : Nat → Input → Option (Json × Input)
  | 0, _ => none
  | fuel + 1, input =>
    match skipSpace input with
    | some 'n' :: rest => (afterWord? (Text.of "ull") rest).map (.null, ·)
    | some 't' :: rest => (afterWord? (Text.of "rue") rest).map (.bool true, ·)
    | some 'f' :: rest => (afterWord? (Text.of "alse") rest).map (.bool false, ·)
    | some '"' :: rest => (string? rest).map fun r => (.string r.1, r.2)
    | some '[' :: rest =>
      match skipSpace rest with
      | some ']' :: rest => some (.array [], rest)
      | _ => (itemsFrom? fuel rest).map fun r => (.array r.1, r.2)
    | some '\x7b' :: rest =>
      match skipSpace rest with
      | some '\x7d' :: rest => some (.object [], rest)
      | _ => (membersFrom? fuel rest).map fun r => (.object r.1, r.2)
    | input => (number? input).map fun r => (.number r.1, r.2)

def itemsFrom? : Nat → Input → Option (List Json × Input)
  | 0, _ => none
  | fuel + 1, input =>
    match valueFrom? fuel input with
    | none => none
    | some (v, input) =>
      match skipSpace input with
      | some ']' :: rest => some ([v], rest)
      | some ',' :: rest => (itemsFrom? fuel rest).map fun r => (v :: r.1, r.2)
      | _ => none

def membersFrom? : Nat → Input → Option (List (Option Text × Json) × Input)
  | 0, _ => none
  | fuel + 1, input =>
    match skipSpace input with
    | some '"' :: rest =>
      match string? rest with
      | none => none
      | some (name, input) =>
        match skipSpace input with
        | some ':' :: rest =>
          match valueFrom? fuel rest with
          | none => none
          | some (v, input) =>
            match skipSpace input with
            | some '\x7d' :: rest => some ([(name, v)], rest)
            | some ',' :: rest => (membersFrom? fuel rest).map fun r => ((name, v) :: r.1, r.2)
            | _ => none
        | _ => none
    | _ => none

end

/-- The value that the characters spell, with nothing but space around it. A value lies at most
two calls deeper than the characters before it. -/
def ofChars? (input : Input) : Option Json :=
  match valueFrom? (2 * input.length + 2) input with
  | some (v, rest) => if skipSpace rest = [] then some v else none
  | none => none

def ofBytes? (bytes : List UInt8) : Option Json := ofChars? (Text.Utf8.decode bytes)

end EntryPoints.Json
