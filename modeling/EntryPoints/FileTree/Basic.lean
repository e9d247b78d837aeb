import EntryPoints.FileTree.Contents

/-!
Trees of files, directories and symbolic links. A node is found under its location, the names that
lead to it from the top directory; the top itself is always a directory. Whatever has a location
lies in a directory and has a name that a file can have: this is part of the type, and both edits,
`put` and `remove`, keep it.
-/
namespace EntryPoints

def Location.path (place : Location) : Path :=
  if place = [] then [Path.slash] else place.flatMap (Path.slash :: ·)

structure FileTree where
  top : Contents
  sound : top.Sound
  deriving DecidableEq

namespace FileTree

def empty : FileTree := ⟨.empty, trivial⟩

instance : Inhabited FileTree := ⟨empty⟩

def node? (files : FileTree) (place : Location) : Option Node := files.top.node? place

/-- A tree is told by what its locations lead to. -/
theorem ext_node? {files files' : FileTree} (h : ∀ place, files.node? place = files'.node? place) :
    files = files' := by
  cases files with
  | mk top sound =>
    cases files' with
    | mk top' sound' => simp only [Contents.ext_node? sound sound' h]

/-- A node called `name` may be put into `parent`: it is a directory, and the name is one and does
not stand for a directory yet. -/
def Accepts (files : FileTree) (parent : Location) (name : Path) : Prop :=
  isName name = true ∧ files.node? parent = some .directory ∧
    files.node? (parent ++ [name]) ≠ some .directory

instance (files : FileTree) (parent : Location) (name : Path) :
    Decidable (files.Accepts parent name) :=
  inferInstanceAs (Decidable (_ ∧ _ ∧ _))

/-- The tree with `node` in `parent` under `name`, in place of the file or link that was there. It
is the same tree if the place does not accept a node. -/
def put (files : FileTree) (parent : Location) (name : Path) (node : Node) : FileTree :=
  if h : files.Accepts parent name then
    ⟨files.top.put parent name node, Contents.sound_put files.sound parent node h.1⟩
  else files

theorem node?_put {files : FileTree} {parent : Location} {name : Path} {node : Node}
    (h : files.Accepts parent name) (place : Location) :
    (files.put parent name node).node? place =
      if place = parent ++ [name] then some node else files.node? place := by
  simp only [put, h, dif_pos]
  exact Contents.node?_put files.sound node h.2.1 h.2.2 place

def remove (files : FileTree) (place : Location) : FileTree :=
  ⟨files.top.remove place, Contents.sound_remove files.sound place⟩

theorem node?_remove (files : FileTree) {place : Location} (h : place ≠ []) (k : Location) :
    (files.remove place).node? k = if place.isPrefixOf k then none else files.node? k :=
  Contents.node?_remove files.sound h k

/-- What lies below a location, with the names that lead to it from there. Nodes come in the order
of those names, so a directory stands right before what it holds. -/
def below (files : FileTree) (place : Location) : List (Location × Node) :=
  ((files.top.at? place).map Contents.nodes).getD []

theorem nodes_of_mem_below {files : FileTree} {place more : Location} {node : Node}
    (h : (more, node) ∈ files.below place) :
    ∃ inside, files.top.at? place = some inside ∧ inside.Sound ∧ (more, node) ∈ inside.nodes := by
  rw [below] at h
  cases hat : files.top.at? place with
  | none =>
    rw [hat] at h
    exact absurd h List.not_mem_nil
  | some inside =>
    rw [hat] at h
    exact ⟨inside, rfl, Contents.sound_of_at? files.sound hat, h⟩

theorem isName_of_mem_below {files : FileTree} {place more : Location} {node : Node}
    (h : (more, node) ∈ files.below place) : ∀ name ∈ more, isName name = true := by
  obtain ⟨_, _, hsound, hmem⟩ := nodes_of_mem_below h
  exact Contents.isName_of_mem_nodes hsound hmem

theorem housed {files : FileTree} {place : Location} {node : Node} (hplace : place ≠ [])
    (h : files.node? place = some node) :
    ∃ parent name, place = parent ++ [name] ∧ isName name = true ∧
      files.node? parent = some .directory :=
  Contents.housed files.sound hplace h

end FileTree
end EntryPoints
