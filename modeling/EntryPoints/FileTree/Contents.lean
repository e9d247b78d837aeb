import EntryPoints.Key
import EntryPoints.Path

/-!
What directories hold: files, symbolic links and directories under names, each directory with its
own contents. Names stand in increasing order, so a name is met once at most. Looking for a node and
changing one both follow the names that lead to it, and so touch nothing off their way. The main
statements say what a put (`node?_put`) and a removal (`node?_remove`) leave under each location.
-/
namespace EntryPoints

structure File where
  bytes : List UInt8
  mode : Nat
  deriving DecidableEq, Repr

/-- Someone may execute the file: its owner, its group or others. -/
def File.isExecutable (f : File) : Bool := f.mode &&& 0o111 ≠ 0

inductive Node where
  | file (f : File)
  | directory
  | link (target : Path)
  deriving DecidableEq, Repr

/-- The names that lead to a node from the top directory. -/
abbrev Location := List Path

def longestName : Nat := 255

def isName (name : Path) : Bool :=
  name ≠ [] && name ≠ [Path.dot] && name ≠ [Path.dot, Path.dot] && !name.contains Path.slash &&
    !name.contains Path.nul && name.length ≤ longestName

/-- The nodes that a directory holds, each with its name and with what it holds itself. -/
inductive Contents where
  | empty
  | entry (name : Path) (node : Node) (inside rest : Contents)
  deriving DecidableEq, Repr

namespace Contents

def find? : Contents → Path → Option (Node × Contents)
  | .empty, _ => none
  | .entry n node inside rest, name =>
    if name = n then some (node, inside) else rest.find? name

/-- The node that names lead to. No names lead to the directory itself. -/
def node? : Contents → Location → Option Node
  | _, [] => some .directory
  | c, name :: place =>
    match c.find? name with
    | none => none
    | some (node, inside) => if place = [] then some node else inside.node? place

/-- What is held where names lead to. -/
def at? : Contents → Location → Option Contents
  | c, [] => some c
  | c, name :: place =>
    match c.find? name with
    | none => none
    | some (_, inside) => inside.at? place

/-- The contents with a node and what it holds under a name, in place of what was there. -/
def insert (c : Contents) (name : Path) (node : Node) (inside : Contents) : Contents :=
  match c with
  | .empty => .entry name node inside .empty
  | .entry n node' inside' rest =>
    if name = n then .entry name node inside rest
    else if name < n then .entry name node inside (.entry n node' inside' rest)
    else .entry n node' inside' (rest.insert name node inside)

def erase (name : Path) : Contents → Contents
  | .empty => .empty
  | .entry n node inside rest =>
    if name = n then rest else .entry n node inside (rest.erase name)

/-- The contents with `node` under `name` in the directory that names lead to. They are the same if
the names lead to no directory. -/
def put : Contents → Location → Path → Node → Contents
  | c, [], name, node => c.insert name node .empty
  | c, d :: parent, name, node =>
    match c.find? d with
    | some (.directory, inside) => c.insert d .directory (inside.put parent name node)
    | _ => c

def remove : Contents → Location → Contents
  | _, [] => .empty
  | c, name :: place =>
    match c.find? name with
    | none => c
    | some (node, inside) =>
      if place = [] then c.erase name else c.insert name node (inside.remove place)

/-- All nodes, with the names that lead to them: each directory right before what it holds, and
otherwise in the order of their names. -/
def nodes : Contents → List (Location × Node)
  | .empty => []
  | .entry name node inside rest =>
    ([name], node) :: inside.nodes.map (fun e => (name :: e.1, e.2)) ++ rest.nodes

def Follows (name : Path) : Contents → Prop
  | .empty => True
  | .entry n _ _ rest => name < n ∧ rest.Follows name

/-- All names are names of files and increase, and nothing but a directory holds anything. -/
def Sound : Contents → Prop
  | .empty => True
  | .entry name node inside rest =>
    isName name = true ∧ rest.Follows name ∧ (node ≠ .directory → inside = .empty) ∧
      inside.Sound ∧ rest.Sound

theorem at?_append {c inside : Contents} {place : Location} (h : c.at? place = some inside)
    (more : Location) : c.at? (place ++ more) = inside.at? more := by
  induction place generalizing c with
  | nil =>
    simp only [at?, Option.some.injEq] at h
    rw [h, List.nil_append]
  | cons name place ih =>
    cases hfind : c.find? name with
    | none => simp [at?, hfind] at h
    | some found => simpa [at?, hfind] using ih (by simpa [at?, hfind] using h)

theorem node?_append {c inside : Contents} {place more : Location}
    (h : c.at? place = some inside) (hmore : more ≠ []) :
    c.node? (place ++ more) = inside.node? more := by
  induction place generalizing c with
  | nil =>
    simp only [at?, Option.some.injEq] at h
    rw [h, List.nil_append]
  | cons name place ih =>
    cases hfind : c.find? name with
    | none => simp [at?, hfind] at h
    | some found => simpa [node?, hfind, hmore] using ih (by simpa [at?, hfind] using h)

theorem find?_insert (name : Path) (node : Node) (inside c : Contents) (k : Path) :
    (c.insert name node inside).find? k = if k = name then some (node, inside) else c.find? k := by
  induction c with
  | empty => simp [insert, find?]
  | entry n node' inside' rest _ ih =>
    simp only [insert]
    split
    · rename_i hn
      by_cases h : k = name <;> simp [find?, h, ← hn]
    · rename_i hn
      split
      · by_cases h : k = name <;> simp [find?, h]
      · by_cases h : k = n
        · simp [find?, h, Ne.symm hn]
        · simp [find?, h, ih]

theorem find?_eq_none_of_follows {name : Path} {c : Contents} (h : c.Follows name) :
    c.find? name = none := by
  induction c with
  | empty => rfl
  | entry n node inside rest _ ih =>
    have hne : name ≠ n := fun heq => Key.irrefl name (heq ▸ h.1)
    simpa [find?, hne] using ih h.2

theorem find?_erase {c : Contents} (h : c.Sound) (name k : Path) :
    (c.erase name).find? k = if k = name then none else c.find? k := by
  induction c with
  | empty => simp [erase, find?]
  | entry n node inside rest _ ih =>
    obtain ⟨_, hfollows, _, _, hrest⟩ := h
    simp only [erase]
    split
    · rename_i hn
      subst hn
      by_cases hk : k = name
      · simp [hk, find?_eq_none_of_follows hfollows]
      · simp [find?, hk]
    · rename_i hn
      by_cases hk : k = n
      · simp [find?, hk, Ne.symm hn]
      · simp [find?, hk, ih hrest]

theorem follows_trans {a b : Path} {c : Contents} (hab : a < b) (h : c.Follows b) :
    c.Follows a := by
  induction c with
  | empty => trivial
  | entry n node inside rest _ ih => exact ⟨Key.trans hab h.1, ih h.2⟩

theorem follows_insert {a name : Path} {node : Node} {inside c : Contents} (ha : a < name)
    (h : c.Follows a) : (c.insert name node inside).Follows a := by
  induction c with
  | empty => exact ⟨ha, trivial⟩
  | entry n node' inside' rest _ ih =>
    simp only [insert]
    split
    · exact ⟨ha, h.2⟩
    · split
      · exact ⟨ha, h⟩
      · exact ⟨h.1, ih h.2⟩

theorem follows_erase {a name : Path} {c : Contents} (h : c.Follows a) :
    (c.erase name).Follows a := by
  induction c with
  | empty => trivial
  | entry n node inside rest _ ih =>
    simp only [erase]
    split
    · exact h.2
    · exact ⟨h.1, ih h.2⟩

theorem sound_insert {name : Path} {node : Node} {inside c : Contents} (hname : isName name = true)
    (hinside : node ≠ .directory → inside = .empty) (hsound : inside.Sound) (h : c.Sound) :
    (c.insert name node inside).Sound := by
  induction c with
  | empty => exact ⟨hname, trivial, hinside, hsound, trivial⟩
  | entry n node' inside' rest _ ih =>
    obtain ⟨hn, hfollows, hinside', hsound', hrest⟩ := h
    simp only [insert]
    split
    · rename_i heq
      exact ⟨hname, heq ▸ hfollows, hinside, hsound, hrest⟩
    · rename_i hne
      split
      · rename_i hlt
        exact ⟨hname, ⟨hlt, follows_trans hlt hfollows⟩, hinside, hsound,
          hn, hfollows, hinside', hsound', hrest⟩
      · rename_i hlt
        have hgt : n < name := Classical.byContradiction fun h => hne (Key.connected hlt h)
        exact ⟨hn, follows_insert hgt hfollows, hinside', hsound', ih hrest⟩

theorem sound_erase {name : Path} {c : Contents} (h : c.Sound) : (c.erase name).Sound := by
  induction c with
  | empty => trivial
  | entry n node inside rest _ ih =>
    obtain ⟨hn, hfollows, hinside, hsound, hrest⟩ := h
    simp only [erase]
    split
    · exact hrest
    · exact ⟨hn, follows_erase hfollows, hinside, hsound, ih hrest⟩

theorem sound_of_find? {c : Contents} (h : c.Sound) {name : Path} {node : Node} {inside : Contents}
    (hfind : c.find? name = some (node, inside)) :
    isName name = true ∧ (node ≠ .directory → inside = .empty) ∧ inside.Sound := by
  induction c with
  | empty => simp [find?] at hfind
  | entry n node' inside' rest _ ih =>
    obtain ⟨hn, _, hinside, hsound, hrest⟩ := h
    by_cases hname : name = n
    · simp only [find?, hname, if_true, Option.some.injEq, Prod.mk.injEq] at hfind
      obtain ⟨rfl, rfl⟩ := hfind
      exact ⟨hname ▸ hn, hinside, hsound⟩
    · exact ih hrest (by simpa [find?, hname] using hfind)

theorem sound_of_at? {c inside : Contents} (h : c.Sound) {place : Location}
    (hat : c.at? place = some inside) : inside.Sound := by
  induction place generalizing c with
  | nil =>
    simp only [at?, Option.some.injEq] at hat
    exact hat ▸ h
  | cons name place ih =>
    cases hfind : c.find? name with
    | none => simp [at?, hfind] at hat
    | some found =>
      obtain ⟨_, _, hsound⟩ := sound_of_find? h hfind
      exact ih hsound (by simpa [at?, hfind] using hat)

theorem isName_of_mem_nodes {c : Contents} (h : c.Sound) {place : Location} {node : Node}
    (hnode : (place, node) ∈ c.nodes) : ∀ name ∈ place, isName name = true := by
  induction c generalizing place with
  | empty => exact absurd hnode List.not_mem_nil
  | entry n held inside rest ihinside ihrest =>
    obtain ⟨hn, _, _, hinside, hrest⟩ := h
    rcases List.mem_append.mp hnode with hnode | hnode
    · rcases List.mem_cons.mp hnode with hhere | hnode
      · cases hhere
        simpa using hn
      · obtain ⟨⟨deeper, _⟩, hdeeper, hplace⟩ := List.mem_map.mp hnode
        cases hplace
        exact List.forall_mem_cons.mpr ⟨hn, ihinside hinside hdeeper⟩
    · exact ihrest hrest hnode

theorem sound_put {c : Contents} (h : c.Sound) (parent : Location) {name : Path} (node : Node)
    (hname : isName name = true) : (c.put parent name node).Sound := by
  induction parent generalizing c with
  | nil => exact sound_insert hname (fun _ => rfl) trivial h
  | cons d parent ih =>
    simp only [put]
    split
    · rename_i inside hfind
      obtain ⟨hd, _, hinside⟩ := sound_of_find? h hfind
      exact sound_insert hd (fun hne => absurd rfl hne) (ih hinside) h
    · exact h

theorem remove_empty (place : Location) : empty.remove place = empty := by
  cases place <;> rfl

theorem sound_remove {c : Contents} (h : c.Sound) (place : Location) : (c.remove place).Sound := by
  induction place generalizing c with
  | nil => trivial
  | cons name place ih =>
    simp only [remove]
    split
    · exact h
    · rename_i node inside hfind
      obtain ⟨hname, hinside, hsound⟩ := sound_of_find? h hfind
      split
      · exact sound_erase h
      · exact sound_insert hname (fun hne => by rw [hinside hne, remove_empty]) (ih hsound) h

theorem node?_empty {place : Location} (h : place ≠ []) : empty.node? place = none := by
  cases place with
  | nil => exact absurd rfl h
  | cons name place => rfl

theorem node?_entry (name : Path) (node : Node) (inside rest : Contents) :
    (entry name node inside rest).node? [name] = some node := by
  simp [node?, find?]

theorem node?_of_follows {name : Path} {c : Contents} (h : c.Follows name) :
    c.node? [name] = none := by
  rw [node?, find?_eq_none_of_follows h]

theorem name_eq_of_node? {n n' : Path} {node node' : Node} {inside rest inside' rest' : Contents}
    (h : rest.Follows n) (h' : rest'.Follows n')
    (hnode : ∀ place, (entry n node inside rest).node? place =
      (entry n' node' inside' rest').node? place) : n = n' := by
  refine Key.connected (fun hlt => ?_) fun hlt => ?_
  · have hlater : (entry n' node' inside' rest').Follows n := ⟨hlt, follows_trans hlt h'⟩
    have hnone := (hnode [n]).trans (node?_of_follows hlater)
    simp [node?_entry] at hnone
  · have hlater : (entry n node inside rest).Follows n' := ⟨hlt, follows_trans hlt h⟩
    have hnone := (hnode [n']).symm.trans (node?_of_follows hlater)
    simp [node?_entry] at hnone

theorem ext_node? {c c' : Contents} (h : c.Sound) (h' : c'.Sound)
    (hnode : ∀ place, c.node? place = c'.node? place) : c = c' := by
  induction c generalizing c' with
  | empty =>
    cases c' with
    | empty => rfl
    | entry n' node' inside' rest' => simpa [node?, find?] using hnode [n']
  | entry n node inside rest ihInside ihRest =>
    cases c' with
    | empty => simpa [node?, find?] using hnode [n]
    | entry n' node' inside' rest' =>
      obtain ⟨_, hfollows, _, hsound, hrest⟩ := h
      obtain ⟨_, hfollows', _, hsound', hrest'⟩ := h'
      obtain rfl : n = n' := name_eq_of_node? hfollows hfollows' hnode
      have nodes : node = node' := by simpa [node?_entry] using hnode [n]
      have insides : inside = inside' := by
        refine ihInside hsound hsound' fun place => ?_
        cases place with
        | nil => rfl
        | cons k place => simpa [node?, find?] using hnode (n :: k :: place)
      have rests : rest = rest' := by
        refine ihRest hrest hrest' fun place => ?_
        cases place with
        | nil => rfl
        | cons k place =>
          by_cases hk : k = n
          · subst hk
            simp [node?, find?_eq_none_of_follows hfollows, find?_eq_none_of_follows hfollows']
          · simpa [node?, find?, hk] using hnode (k :: place)
      rw [nodes, insides, rests]

/-- Nothing but a directory stands on the way to a node. -/
theorem exists_inside {c : Contents} (h : c.Sound) {d : Path} {place : Location} {node : Node}
    (hplace : place ≠ []) (hnode : c.node? (d :: place) = some node) :
    ∃ inside, isName d = true ∧ c.find? d = some (.directory, inside) ∧ inside.Sound ∧
      inside.node? place = some node := by
  cases hfind : c.find? d with
  | none => simp [node?, hfind] at hnode
  | some found =>
    obtain ⟨held, inside⟩ := found
    obtain ⟨hd, hempty, hsound⟩ := sound_of_find? h hfind
    have hbelow : inside.node? place = some node := by
      simpa [node?, hfind, hplace] using hnode
    have hdirectory : held = .directory := by
      by_cases hheld : held = .directory
      · exact hheld
      · rw [hempty hheld, node?_empty hplace] at hbelow
        cases hbelow
    subst hdirectory
    exact ⟨inside, hd, rfl, hsound, hbelow⟩

theorem exists_inside_directory {c : Contents} (h : c.Sound) {d : Path} {place : Location}
    (hdirectory : c.node? (d :: place) = some .directory) :
    ∃ inside, c.find? d = some (.directory, inside) ∧ inside.Sound ∧
      inside.node? place = some .directory := by
  by_cases hplace : place = []
  · subst hplace
    cases hfind : c.find? d with
    | none => simp [node?, hfind] at hdirectory
    | some found =>
      obtain ⟨held, inside⟩ := found
      obtain rfl : held = .directory := by simpa [node?, hfind] using hdirectory
      exact ⟨inside, rfl, (sound_of_find? h hfind).2.2, rfl⟩
  · obtain ⟨inside, _, hfind, hsound, hbelow⟩ := exists_inside h hplace hdirectory
    exact ⟨inside, hfind, hsound, hbelow⟩

theorem node?_put {c : Contents} (h : c.Sound) {parent : Location} {name : Path} (node : Node)
    (hparent : c.node? parent = some .directory)
    (hfree : c.node? (parent ++ [name]) ≠ some .directory) (place : Location) :
    (c.put parent name node).node? place =
      if place = parent ++ [name] then some node else c.node? place := by
  induction parent generalizing c place with
  | nil =>
    cases place with
    | nil => simp [node?]
    | cons k place =>
      by_cases hk : k = name
      · subst hk
        by_cases hplace : place = []
        · simp [put, node?, find?_insert, hplace]
        · -- What was there before is no directory, so nothing lay below it either.
          have hold : c.node? (k :: place) = none := by
            simp only [node?, List.nil_append] at hfree ⊢
            split
            · rfl
            · rename_i old inside hfind
              have hnot : old ≠ .directory := by simpa [hfind] using hfree
              rw [if_neg hplace, (sound_of_find? h hfind).2.1 hnot, node?_empty hplace]
          simp [put, node?, find?_insert, hplace, node?_empty hplace]
          simpa [node?, hplace] using hold.symm
      · simp [put, node?, find?_insert, hk]
  | cons d parent ih =>
    obtain ⟨inside, hfind, hsound, hparent'⟩ := exists_inside_directory h hparent
    have hfree' : inside.node? (parent ++ [name]) ≠ some .directory := by
      simpa [node?, hfind] using hfree
    cases place with
    | nil => simp [node?]
    | cons k place =>
      by_cases hk : k = d
      · subst hk
        by_cases hplace : place = []
        · subst hplace
          simp [put, node?, hfind, find?_insert]
        · simp [put, node?, hfind, find?_insert, hplace, ih hsound hparent' hfree' place]
      · simp [put, node?, hfind, find?_insert, hk]

theorem node?_remove {c : Contents} (h : c.Sound) {place : Location} (hplace : place ≠ [])
    (k : Location) :
    (c.remove place).node? k = if place.isPrefixOf k then none else c.node? k := by
  induction place generalizing c k with
  | nil => exact absurd rfl hplace
  | cons name place ih =>
    cases k with
    | nil => simp [node?]
    | cons n k =>
      cases hfind : c.find? name with
      | none =>
        by_cases hn : name = n
        · subst hn
          simp [remove, node?, hfind]
        · simp [remove, hfind, hn]
      | some found =>
        obtain ⟨node, inside⟩ := found
        obtain ⟨_, _, hsound⟩ := sound_of_find? h hfind
        by_cases hlast : place = []
        · subst hlast
          by_cases hn : name = n
          · subst hn
            simp [remove, hfind, node?, find?_erase h]
          · simp [remove, hfind, node?, find?_erase h, hn, Ne.symm hn]
        · by_cases hn : name = n
          · subst hn
            by_cases hk : k = []
            · simp [remove, hfind, node?, find?_insert, hlast, hk]
            · simp [remove, hfind, node?, find?_insert, hlast, hk, ih hsound hlast k]
          · simp [remove, hfind, node?, find?_insert, hlast, hn, Ne.symm hn]

/-- Whatever has a location lies in a directory under the name of a file. -/
theorem housed {c : Contents} (h : c.Sound) {place : Location} {node : Node} (hplace : place ≠ [])
    (hnode : c.node? place = some node) :
    ∃ parent name, place = parent ++ [name] ∧ isName name = true ∧
      c.node? parent = some .directory := by
  induction place generalizing c with
  | nil => exact absurd rfl hplace
  | cons d place ih =>
    by_cases hlast : place = []
    · subst hlast
      cases hfind : c.find? d with
      | none => simp [node?, hfind] at hnode
      | some found => exact ⟨[], d, rfl, (sound_of_find? h hfind).1, rfl⟩
    · obtain ⟨inside, _, hfind, hsound, hbelow⟩ := exists_inside h hlast hnode
      obtain ⟨parent, name, hsplit, hname, hparent⟩ := ih hsound hlast hbelow
      refine ⟨d :: parent, name, by simp [hsplit], hname, ?_⟩
      by_cases hp : parent = []
      · simp [node?, hfind, hp]
      · simpa [node?, hfind, hp] using hparent

end Contents
end EntryPoints
