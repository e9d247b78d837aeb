import EntryPoints.FileTree.Access
import EntryPoints.Text.Blank
import EntryPoints.Words

/-!
Interpreter directives: a file that begins with the two bytes of the marker names, on the rest of
its first line, the program that runs it.
-/
namespace EntryPoints

namespace Directive

def marker : List UInt8 := [0x23, 0x21]

/-- The bytes up to the first newline and with it, or all of them if there is none. -/
def throughNewline : List UInt8 → List UInt8
  | [] => []
  | byte :: rest => if byte = 0x0a then [byte] else byte :: throughNewline rest

/-- What a file that begins with the marker says on the rest of its first line. -/
def line? : List UInt8 → Option Text
  | 0x23 :: 0x21 :: rest => some (Text.trim (Text.Utf8.lenient (throughNewline rest)))
  | _ => none

/-- The words of the directive. A file without one has none. -/
def ofBytes (bytes : List UInt8) : Except Failure (List Text) :=
  match line? bytes with
  | none => .ok []
  | some line => Words.split line

def read (files : FileTree) (p : Path) : Except Failure (List Text) :=
  match files.read p with
  | .ok bytes => ofBytes bytes
  | .error cause => .error (.io p cause)

end Directive
end EntryPoints
