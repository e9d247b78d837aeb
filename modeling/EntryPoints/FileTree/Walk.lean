import EntryPoints.FileTree.Basic

/-!
Following a path through a tree. Every piece of a path but the last has to lead to a directory, and
a link is followed by putting the steps of its target in front of those that remain, at most forty
times. A walk keeps what it has entered, so that each step costs the same however deep it is;
`Trail.node?_location_append` says that it finds what the tree has. What becomes of a link at the
very end depends on what the path is followed for. A path has a greatest length. A path that is
resolved is followed in small pieces, from each location on the way to the next, so the limit holds
for the paths of these locations and not for the path itself, and idle steps count only at its end.
-/
namespace EntryPoints

inductive Cause where
  | notFound
  | notADirectory
  | isADirectory
  | nameTooLong
  | tooManyLinks
  | nulInPath
  deriving DecidableEq, Repr

def Cause.message : Cause → Text
  | .notFound => Text.of "No such file or directory (os error 2)"
  | .notADirectory => Text.of "Not a directory (os error 20)"
  | .isADirectory => Text.of "Is a directory (os error 21)"
  | .nameTooLong => Text.of "File name too long (os error 36)"
  | .tooManyLinks => Text.of "Too many levels of symbolic links (os error 40)"
  | .nulInPath => Text.of "file name contained an unexpected NUL byte"

/-- One step of a path: into a node by its name, to the directory above, or nowhere, which still
asks for a directory. A slash at the end of a path is a step of its own. -/
inductive Step where
  | enter (name : Path)
  | up
  | stay
  | close
  deriving DecidableEq, Repr

namespace Path

def step? (piece : Path) : Option Step :=
  if piece = [] then none
  else if piece = [dot] then some .stay
  else if piece = [dot, dot] then some .up
  else some (.enter piece)

def steps (p : Path) : List Step :=
  (pieces p).filterMap step? ++ if p.getLast? = some slash then [.close] else []

end Path

/-- What a path is followed for: the node that it leads to, the node that bears its last name even
if that is a link, a file to be made where it leads, or the location that it leads to. -/
inductive Purpose where
  | reach
  | inspect
  | create
  | resolve
  deriving DecidableEq, Repr

/-- Where a path leads: to a node, or to a name that is still free in a directory. -/
inductive Target where
  | node (place : Location)
  | vacant (parent : Location) (name : Path)
  deriving DecidableEq, Repr

def Target.place : Target → Except Cause Location
  | .node place => .ok place
  | .vacant _ _ => .error .notFound

def pathLimit : Nat := 4096

/-- The path that asks for a step from a location: that of the node to be entered, or else that of
the location with a slash behind, which asks for a directory. -/
def Step.question (here : Location) : Step → Path
  | .enter name => Location.path (here ++ [name])
  | _ => Location.path (here ++ [[]])

def Step.isIdle (step : Step) : Bool := step = .stay || step = .close

/-- A node that a walk has entered: its name, what it is, and what it holds. -/
structure Stop where
  name : Path
  node : Node
  inside : Contents
  deriving DecidableEq, Repr

/-- The nodes that a walk has entered on its way from the top, the last one first. -/
abbrev Trail := List Stop

namespace Trail

def location (trail : Trail) : Location := (trail.map Stop.name).reverse

def node (trail : Trail) : Node := (trail.head?.map Stop.node).getD .directory

def inside (top : Contents) (trail : Trail) : Contents := (trail.head?.map Stop.inside).getD top

def Fits (files : FileTree) : Trail → Prop
  | [] => True
  | stop :: trail =>
    (Trail.inside files.top trail).find? stop.name = some (stop.node, stop.inside) ∧
      Fits files trail

theorem at?_location {files : FileTree} {trail : Trail} (h : trail.Fits files) :
    files.top.at? trail.location = some (trail.inside files.top) := by
  induction trail with
  | nil => rfl
  | cons stop trail ih =>
    have hlast : location (stop :: trail) = location trail ++ [stop.name] := by simp [location]
    rw [hlast, Contents.at?_append (ih h.2), Contents.at?, h.1]
    rfl

/-- What a walk finds under a name is what the tree has there. -/
theorem node?_location_append {files : FileTree} {trail : Trail} (h : trail.Fits files)
    (name : Path) :
    files.node? (trail.location ++ [name]) =
      ((trail.inside files.top).find? name).map Prod.fst := by
  rw [FileTree.node?, Contents.node?_append (at?_location h) (List.cons_ne_nil name [])]
  cases hfind : (trail.inside files.top).find? name <;> simp [Contents.node?, hfind]

theorem node?_location {files : FileTree} {trail : Trail} (h : trail.Fits files) :
    files.node? trail.location = some trail.node := by
  cases trail with
  | nil => rfl
  | cons stop trail =>
    have hlast : location (stop :: trail) = location trail ++ [stop.name] := by simp [location]
    rw [hlast, node?_location_append h.2, h.1]
    rfl

end Trail

/-- How far steps go without passing a link. -/
inductive Leg where
  | arrived (target : Target)
  | failed (cause : Cause)
  | crossing (here : Trail) (link : Path) (rest : List Step)
  deriving DecidableEq, Repr

namespace FileTree

/-- Takes steps up to the first link that has to be followed. -/
def advance (files : FileTree) (purpose : Purpose) : Trail → List Step → Leg
  | here, [] => .arrived (.node here.location)
  | here, step :: rest =>
    if purpose = .resolve ∧ step.isIdle ∧ rest ≠ [] then advance files purpose here rest
    else if purpose = .resolve ∧ (step.question here.location).length ≥ pathLimit then
      .failed .nameTooLong
    else if here.node ≠ .directory then .failed .notADirectory
    else
      match step with
      | .stay => advance files purpose here rest
      | .close => advance files purpose here rest
      | .up => advance files purpose here.tail rest
      | .enter name =>
        if purpose = .create ∧ rest = [.close] then .failed .isADirectory
        else if name.length > longestName then .failed .nameTooLong
        else if name.contains Path.nul then .failed .nulInPath
        else
          match (here.inside files.top).find? name with
          | none => if rest = [] then .arrived (.vacant here.location name) else .failed .notFound
          | some (.link target, _) =>
            if purpose = .inspect ∧ rest = [] then .arrived (.node (here.location ++ [name]))
            else .crossing here target rest
          | some (node, inside) => advance files purpose (⟨name, node, inside⟩ :: here) rest

def follow (files : FileTree) (purpose : Purpose) :
    Nat → Trail → List Step → Except Cause Target
  | links, here, steps =>
    match files.advance purpose here steps with
    | .arrived target => .ok target
    | .failed cause => .error cause
    | .crossing here link rest =>
      match links with
      | 0 => .error .tooManyLinks
      | links + 1 =>
        if link = [] then .error .notFound
        else
          follow files purpose links (if Path.isAbsolute link then [] else here)
            (Path.steps link ++ rest)

def mostLinks : Nat := 40

/-- Where a path leads. A relative path starts at the top. -/
def target (files : FileTree) (purpose : Purpose) (p : Path) : Except Cause Target :=
  if p.contains Path.nul then .error .nulInPath
  else if p = [] then .error .notFound
  else if purpose ≠ .resolve ∧ p.length ≥ pathLimit then .error .nameTooLong
  else files.follow purpose mostLinks [] (Path.steps p)

end FileTree
end EntryPoints
