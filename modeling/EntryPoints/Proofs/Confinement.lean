import EntryPoints.Proofs.Spelling

/-!
Where a path may lead, told by its text. In a tree without links a path leads to the location that
it spells (`destination_of_linkFree`), and a path that never climbs above its start spells one under
that start (`after_of_descends`). A link may lead anywhere, so nothing of the kind holds with one.
-/
namespace EntryPoints

def Step.onto (here : Location) : Step → Location
  | .enter name => here ++ [name]
  | .up => here.dropLast
  | .stay => here
  | .close => here

/-- Where steps lead from a location if they meet no link. -/
def Location.after (here : Location) (steps : List Step) : Location := steps.foldl Step.onto here

/-- The location is one that `root` leads to by further names. -/
def Location.IsUnder (place root : Location) : Prop := root <+: place ∧ place ≠ root

namespace Path

def location (p : Path) : Location := Location.after [] (steps p)

/-- From `depth` names below their start the steps never lead above it. -/
def descends : Nat → List Step → Bool
  | _, [] => true
  | depth, .enter _ :: rest => descends (depth + 1) rest
  | 0, .up :: _ => false
  | depth + 1, .up :: rest => descends depth rest
  | depth, .stay :: rest => descends depth rest
  | depth, .close :: rest => descends depth rest

/-- The path is relative and, read piece by piece, never leads above its start. -/
def isInward (p : Path) : Bool := !isAbsolute p && descends 0 (steps p)

theorem isInward_iff {p : Path} :
    isInward p = true ↔ isAbsolute p = false ∧ descends 0 (steps p) = true := by
  simp [isInward]

theorem descends_of_no_up {steps : List Step} (h : .up ∉ steps) (depth : Nat) :
    descends depth steps = true := by
  induction steps generalizing depth with
  | nil => rfl
  | cons step rest ih =>
    obtain ⟨hstep, hrest⟩ := not_or.mp (mt List.mem_cons.mpr h)
    cases step with
    | enter name => exact ih hrest (depth + 1)
    | up => exact absurd rfl hstep
    | stay => exact ih hrest depth
    | close => exact ih hrest depth

theorem descends_of_append {front rest : List Step} {depth : Nat}
    (h : descends depth (front ++ rest) = true) : descends depth front = true := by
  induction front generalizing depth with
  | nil => rfl
  | cons step front ih =>
    cases step with
    | enter name => exact ih h
    | up =>
      cases depth with
      | zero => cases h
      | succ depth => exact ih h
    | stay => exact ih h
    | close => exact ih h

theorem up_mem_steps_iff {p : Path} : .up ∈ steps p ↔ climbs p = true := by
  have hclose : .up ∉ if p.getLast? = some slash then [Step.close] else [] := by
    split <;> simp
  rw [steps, List.mem_append, or_iff_left hclose, climbs, List.contains_iff_mem, List.mem_filterMap]
  constructor
  · rintro ⟨piece, hpiece, hstep⟩
    simp only [step?] at hstep
    split at hstep
    · cases hstep
    · split at hstep
      · cases hstep
      · split at hstep
        · rename_i hdots
          rwa [← hdots]
        · cases hstep
  · intro hdots
    exact ⟨[dot, dot], hdots, by rfl⟩

theorem isInward_of_not_climbs {p : Path} (hrelative : isAbsolute p = false)
    (hclimbs : climbs p = false) : isInward p = true := by
  have hup : .up ∉ steps p := by
    rw [up_mem_steps_iff, hclimbs]
    exact Bool.false_ne_true
  exact isInward_iff.mpr ⟨hrelative, descends_of_no_up hup 0⟩

end Path

namespace Location

theorem after_append (here : Location) (front rest : List Step) :
    here.after (front ++ rest) = (here.after front).after rest :=
  List.foldl_append

theorem after_filter (here : Location) (steps : List Step) :
    here.after (steps.filter (!·.isIdle)) = here.after steps := by
  induction steps generalizing here with
  | nil => rfl
  | cons step rest ih => cases step <;> exact ih _

/-- Steps that never lead above their start do the same from any location. -/
theorem after_of_descends {here : Location} {steps : List Step}
    (h : Path.descends here.length steps = true) (base : Location) :
    after (base ++ here) steps = base ++ here.after steps := by
  -- The names below `base` are those that may still be left again: their number is the depth.
  induction steps generalizing here with
  | nil => rfl
  | cons step rest ih =>
    cases step with
    | enter name =>
      have hdeeper : Path.descends (here ++ [name]).length rest = true := by
        rw [List.length_append]
        exact h
      have hrest := ih hdeeper
      rw [← List.append_assoc] at hrest
      exact hrest
    | up =>
      by_cases hhere : here = []
      · subst hhere
        cases h
      · obtain ⟨n, hn⟩ := Nat.exists_eq_succ_of_ne_zero (mt List.eq_nil_of_length_eq_zero hhere)
        have hhigher : Path.descends here.dropLast.length rest = true := by
          rw [hn] at h
          rw [List.length_dropLast, hn]
          exact h
        have hrest := ih hhigher
        rw [← List.dropLast_append_of_ne_nil hhere] at hrest
        exact hrest
    | stay => exact ih h
    | close => exact ih h

end Location

namespace Path

theorem location_join (root : Path) {p : Path} (hp : isAbsolute p = false) :
    location (join root p) = (location root).after (steps p) := by
  have hsteps : (steps (join root p)).filter (!·.isIdle) =
      (steps root).filter (!·.isIdle) ++ (steps p).filter (!·.isIdle) := by
    rw [filter_steps, filter_steps, filter_steps, telling_join root hp, List.filterMap_append]
  rw [location, ← Location.after_filter, hsteps, Location.after_append, Location.after_filter,
    Location.after_filter, location]

theorem pieces_append_byte {c : UInt8} (hslash : c ≠ slash) (p : Path) :
    ∃ init last, pieces (p ++ [c]) = init ++ [last ++ [c]] := by
  obtain ⟨init, last, hcut⟩ := Text.cut_eq_concat slash p
  have hletter : Text.cut slash [c] = [[c]] := by simp [Text.cut, hslash]
  exact ⟨init, last, Text.cut_glue hcut hletter⟩

/-- A path that ends in an ordinary byte enters a name last. -/
theorem last_step_of_byte {c : UInt8} (hslash : c ≠ slash) (hdot : c ≠ dot) (p : Path) :
    ∃ name, (steps (p ++ [c])).getLast? = some (.enter name) := by
  obtain ⟨init, last, hpieces⟩ := pieces_append_byte hslash p
  have hopen : (p ++ [c]).getLast? ≠ some slash := by simpa using hslash
  have hstep : step? (last ++ [c]) = some (.enter (last ++ [c])) := by
    have hdots : last ++ [c] ≠ [dot, dot] := by
      intro hdots
      have hlast := congrArg List.getLast? hdots
      simp [hdot] at hlast
    have hone : last ++ [c] ≠ [dot] := by
      intro hone
      have hlast := congrArg List.getLast? hone
      simp [hdot] at hlast
    simp [step?, hone, hdots]
  refine ⟨last ++ [c], ?_⟩
  rw [steps, if_neg hopen, List.append_nil, hpieces, List.filterMap_append, List.filterMap_cons,
    hstep]
  simp

theorem steps_ne_nil {p : Path} (h : p ≠ []) : steps p ≠ [] := by
  obtain ⟨front, c, hp⟩ := (List.eq_nil_or_concat p).resolve_left h
  rw [List.concat_eq_append] at hp
  subst hp
  intro hsteps
  obtain ⟨hnames, hclose⟩ := List.append_eq_nil_iff.mp hsteps
  have hslash : c ≠ slash := by simpa using hclose
  obtain ⟨init, last, hpieces⟩ := pieces_append_byte hslash front
  have hstep : step? (last ++ [c]) = none :=
    List.filterMap_eq_nil_iff.mp hnames (last ++ [c]) (by simp [hpieces])
  have hne : last ++ [c] ≠ [] := by simp
  rw [step?, if_neg hne] at hstep
  split at hstep
  · cases hstep
  · split at hstep <;> cases hstep

theorem last_step_join (root : Path) {p : Path} (hp : isAbsolute p = false) (hne : p ≠ []) :
    (steps (join root p)).getLast? = (steps p).getLast? := by
  obtain ⟨front, hpieces, _⟩ := pieces_join root hp
  have hsome : p.getLast?.isSome := List.getLast?_isSome.mpr hne
  have hlast : (join root p).getLast? = p.getLast? := by
    rw [join, if_neg (by simp [hp])]
    split
    · rw [List.getLast?_append, Option.or_of_isSome hsome]
    · have happend : root ++ slash :: p = (root ++ [slash]) ++ p := by simp
      rw [happend, List.getLast?_append, Option.or_of_isSome hsome]
  have hsteps : steps (join root p) = front.filterMap step? ++ steps p := by
    rw [steps, hpieces, hlast, List.filterMap_append, List.append_assoc]
    rfl
  rw [hsteps, List.getLast?_append,
    Option.or_of_isSome (List.getLast?_isSome.mpr (steps_ne_nil hne))]

theorem isUnder_of_isInward {root p : Path} (h : isInward p = true) {name : Path}
    (hlast : (steps p).getLast? = some (.enter name)) :
    (location (join root p)).IsUnder (location root) := by
  obtain ⟨hrelative, hdescends⟩ := isInward_iff.mp h
  obtain ⟨front, hsteps⟩ := List.getLast?_eq_some_iff.mp hlast
  rw [hsteps] at hdescends
  have hstart : descends (List.length ([] : Location)) front = true := descends_of_append hdescends
  have hfront := Location.after_of_descends hstart (location root)
  rw [List.append_nil] at hfront
  have hplace : location (join root p) =
      location root ++ (Location.after [] front ++ [name]) := by
    rw [location_join root hrelative, hsteps, Location.after_append, hfront, ← List.append_assoc]
    rfl
  rw [hplace]
  exact ⟨List.prefix_append _ _, by simp⟩

end Path

namespace FileTree

variable {files : FileTree} {purpose : Purpose}

def LinkFree (files : FileTree) : Prop := ∀ place target, files.node? place ≠ some (.link target)

theorem linkFree_empty : LinkFree .empty := by
  intro place target hlink
  cases place <;> cases hlink

theorem linkFree_put (h : files.LinkFree) {parent : Location} {name : Path} {node : Node}
    (haccepts : files.Accepts parent name) (hnode : ∀ target, node ≠ .link target) :
    (files.put parent name node).LinkFree := by
  intro place target hlink
  rw [node?_put haccepts] at hlink
  split at hlink
  · exact hnode target (Option.some.inj hlink)
  · exact h place target hlink

def bareTree : FileTree := .put .empty [] (Text.of "stage") .directory

theorem linkFree_bareTree : bareTree.LinkFree := by
  refine linkFree_put linkFree_empty (by decide) ?_
  intro target hlink
  cases hlink

theorem course_of_linkFree (h : files.LinkFree) (purpose : Purpose) (here : Location)
    (steps : List Step) :
    (files.course purpose here steps).link? = none ∧
      ∀ place, (files.course purpose here steps).destination = some place →
        place = here.after steps := by
  induction steps generalizing here with
  | nil => exact ⟨rfl, fun place hplace => (Option.some.inj hplace).symm⟩
  | cons step rest ih =>
    simp only [course]
    split
    · rename_i hidle
      cases step with
      | enter name => cases hidle.2.1
      | up => cases hidle.2.1
      | stay => exact ih here
      | close => exact ih here
    · split
      · exact ⟨rfl, fun place hplace => by cases hplace⟩
      · cases step with
        | stay => exact ih here
        | close => exact ih here
        | up => exact ih here.dropLast
        | enter name =>
          dsimp only
          cases hnode : files.node? (here ++ [name]) with
          | none =>
            by_cases hrest : rest = []
            · subst hrest
              exact ⟨rfl, fun place hplace => (Option.some.inj hplace).symm⟩
            · simp [Course.entering, Course.link?, Course.destination, hrest]
          | some node =>
            cases node with
            | file f => exact ih (here ++ [name])
            | directory => exact ih (here ++ [name])
            -- Only here could the course leave the location that it spells.
            | link target => exact absurd hnode (h _ target)

theorem destination_of_linkFree (h : files.LinkFree) {p : Path} {place : Location}
    (hplace : files.destination purpose p = some place) : place = Path.location p := by
  obtain ⟨hlink, hcourse⟩ := course_of_linkFree h purpose [] (Path.steps p)
  simp only [destination, target_eq_route] at hplace
  split at hplace
  · cases hplace
  · split at hplace
    · cases hplace
    · split at hplace
      · cases hplace
      · have hend : files.routeEnd purpose mostLinks [] (Path.steps p) = some place := hplace
        rw [routeEnd_eq, hlink] at hend
        exact hcourse place hend

theorem directory_dropLast {here : Location} (h : files.node? here = some .directory) :
    files.node? here.dropLast = some .directory := by
  by_cases hhere : here = []
  · subst hhere
    exact h
  · obtain ⟨parent, name, rfl, _, hparent⟩ := files.housed hhere h
    rwa [List.dropLast_concat]

/-- A course over these steps that arrives at a file enters its name last. One that meets a link met
it in a directory, and enters its name in front of the steps that remain. -/
def EntersLast (files : FileTree) (steps : List Step) : Course → Prop
  | .arrived (.node place) =>
    ∀ f, files.node? place = some (.file f) → ∃ name, steps.getLast? = some (.enter name)
  | .arrived (.vacant _ _) => True
  | .failed _ => True
  | .crossing there _ rest =>
    files.node? there = some .directory ∧ ∃ front name, steps = front ++ .enter name :: rest

theorem EntersLast.cons {steps : List Step} {course : Course} (h : files.EntersLast steps course)
    (step : Step) : files.EntersLast (step :: steps) course := by
  cases course with
  | arrived target =>
    cases target with
    | node place =>
      intro f hfile
      obtain ⟨name, hlast⟩ := h f hfile
      exact ⟨name, by rw [List.getLast?_cons, hlast]; rfl⟩
    | vacant parent name => trivial
  | failed cause => trivial
  | crossing there link rest =>
    obtain ⟨hthere, front, name, rfl⟩ := h
    exact ⟨hthere, step :: front, name, rfl⟩

theorem course_entersLast {here : Location} (hhere : files.node? here = some .directory)
    (steps : List Step) : files.EntersLast steps (files.course .reach here steps) := by
  induction steps generalizing here with
  | nil =>
    intro f hfile
    rw [hhere] at hfile
    cases hfile
  | cons step rest ih =>
    simp only [course, reduceCtorEq, false_and, if_false]
    split
    · trivial
    · cases step with
      | stay => exact (ih hhere).cons .stay
      | close => exact (ih hhere).cons .close
      | up => exact (ih (directory_dropLast hhere)).cons .up
      | enter name =>
        dsimp only
        cases hnode : files.node? (here ++ [name]) with
        | none => by_cases hlast : rest = [] <;> simp [Course.entering, EntersLast, hlast]
        | some node =>
          cases node with
          | directory => exact (ih hnode).cons (.enter name)
          | link target =>
            simp only [Course.entering, reduceCtorEq, false_and, if_false]
            exact ⟨hhere, [], name, rfl⟩
          | file f =>
            by_cases hlast : rest = []
            · subst hlast
              exact fun _ _ => ⟨name, rfl⟩
            · -- Behind a file nothing can be entered, so the course does not arrive.
              have hfile : files.node? (here ++ [name]) ≠ some .directory := by simp [hnode]
              obtain ⟨cause, hstuck⟩ := course_stuck .reach hfile hlast
              simp [Course.entering, EntersLast, hstuck]

theorem route_last {links : Nat} {here : Location} (hhere : files.node? here = some .directory)
    {steps : List Step} {place : Location} {f : File}
    (h : files.route .reach links here steps = .ok (.node place))
    (hfile : files.node? place = some (.file f)) :
    ∃ name, steps.getLast? = some (.enter name) := by
  induction links using Nat.strongRecOn generalizing here steps with
  | ind links ih =>
    have hlast := course_entersLast hhere steps
    rcases route_ok_iff.mp h with harrived | ⟨there, link, rest, fewer, hcrossing, rfl, _, honward⟩
    · rw [harrived] at hlast
      exact hlast f hfile
    · rw [hcrossing] at hlast
      obtain ⟨hthere, front, name, rfl⟩ := hlast
      have hfrom : files.node? (if Path.isAbsolute link then [] else there) = some .directory := by
        split
        · rfl
        · exact hthere
      obtain ⟨last, honward⟩ := ih fewer (Nat.lt_succ_self fewer) hfrom honward
      -- The steps that remain end the route, unless the link is the last name itself.
      cases hrest : rest.getLast? with
      | none =>
        rw [List.getLast?_eq_none_iff.mp hrest]
        exact ⟨name, List.getLast?_concat⟩
      | some step =>
        obtain rfl : step = .enter last := by
          rw [List.getLast?_append, hrest] at honward
          exact Option.some.inj honward
        refine ⟨last, ?_⟩
        rw [List.getLast?_append, List.getLast?_cons, hrest]
        rfl

theorem last_step_of_isExecutable {p : Path} (h : files.isExecutable p = true) :
    ∃ name, (Path.steps p).getLast? = some (.enter name) := by
  rw [isExecutable] at h
  split at h
  · rename_i f hlookup
    obtain ⟨place, htarget, hfile⟩ := target_of_lookup hlookup
    exact route_last rfl (route_of_target htarget) hfile
  · cases h

end FileTree
end EntryPoints
