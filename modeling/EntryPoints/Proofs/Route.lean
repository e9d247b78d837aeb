import EntryPoints.FileTree.Access

/-!
Where paths lead, told by locations alone. A walk carries what it has entered only to be quick:
`follow_eq_route` says that it goes where the nodes of the tree send it. The end of a route depends
on the frame of the tree, its directories and links, and not on its files (`destination_congr`).
-/
namespace EntryPoints

def Target.destination : Target → Location
  | .node place => place
  | .vacant parent name => parent ++ [name]

inductive Course where
  | arrived (target : Target)
  | failed (cause : Cause)
  | crossing (here : Location) (link : Path) (rest : List Step)

namespace Course

def destination : Course → Option Location
  | .arrived target => some target.destination
  | _ => none

def link? : Course → Option (Location × Path × List Step)
  | .crossing here link rest => some (here, link, rest)
  | _ => none

/-- The course that enters a name, by the node that bears it; `onward` goes on from there. -/
def entering (found : Option Node) (purpose : Purpose) (here : Location) (name : Path)
    (rest : List Step) (onward : Course) : Course :=
  match found with
  | none => if rest = [] then .arrived (.vacant here name) else .failed .notFound
  | some (.link target) =>
    if purpose = .inspect ∧ rest = [] then .arrived (.node (here ++ [name]))
    else .crossing here target rest
  | some _ => onward

end Course

def Leg.course : Leg → Course
  | .arrived target => .arrived target
  | .failed cause => .failed cause
  | .crossing here link rest => .crossing here.location link rest

namespace Step

/-- Why the step cannot be taken from a location where `found` is, if it cannot. -/
def refusal? (purpose : Purpose) (here : Location) (found : Option Node) (rest : List Step)
    (step : Step) : Option Cause :=
  if purpose = .resolve ∧ (step.question here).length ≥ pathLimit then
    some .nameTooLong
  else if found ≠ some .directory then some .notADirectory
  else
    match step with
    | .enter name =>
      if purpose = .create ∧ rest = [.close] then some .isADirectory
      else if name.length > longestName then some .nameTooLong
      else if name.contains Path.nul then some .nulInPath
      else none
    | _ => none

variable {purpose : Purpose} {here : Location} {found found' : Option Node} {rest : List Step}
  {step : Step}

theorem directory_of_refusal?_eq_none (h : step.refusal? purpose here found rest = none) :
    found = some .directory := by
  unfold refusal? at h
  split at h
  · cases h
  · split at h
    · cases h
    · rename_i hdirectory
      simpa using hdirectory

theorem name_of_refusal?_eq_none {name : Path}
    (h : (Step.enter name).refusal? purpose here found rest = none) :
    name.length ≤ longestName ∧ Path.nul ∉ name := by
  have hdirectory := directory_of_refusal?_eq_none h
  simp only [refusal?, hdirectory] at h
  split at h
  · cases h
  · simp only [ne_eq, not_true, if_false] at h
    split at h
    · cases h
    · split at h
      · cases h
      · split at h
        · cases h
        · rename_i hsize hnul
          exact ⟨Nat.le_of_not_lt hsize, by simpa using hnul⟩

theorem refusal?_congr (h : found = some .directory ↔ found' = some .directory) :
    step.refusal? purpose here found rest = step.refusal? purpose here found' rest := by
  simp only [refusal?, ne_eq, h]

/-- To make a file is refused wherever to reach one is. -/
theorem refusal?_reach_of_create (h : step.refusal? .create here found rest = none) :
    step.refusal? .reach here found rest = none := by
  have hdirectory := directory_of_refusal?_eq_none h
  cases step with
  | stay => simp [refusal?, hdirectory]
  | close => simp [refusal?, hdirectory]
  | up => simp [refusal?, hdirectory]
  | enter name =>
    obtain ⟨hsize, hnul⟩ := name_of_refusal?_eq_none h
    simp [refusal?, hdirectory, hsize, hnul]

end Step

/-- The step enters no name that a file cannot have because of its letters. -/
def Step.IsProper : Step → Prop
  | .enter name => name ≠ [] ∧ name ≠ [Path.dot] ∧ name ≠ [Path.dot, Path.dot] ∧ Path.slash ∉ name
  | _ => True

theorem isName_of_isProper {name : Path} (h : (Step.enter name).IsProper)
    (hsize : name.length ≤ longestName) (hnul : Path.nul ∉ name) : isName name = true := by
  obtain ⟨hempty, hdot, hdots, hslash⟩ := h
  simp [isName, hempty, hdot, hdots, hslash, hsize, hnul]

theorem Path.isProper_of_mem_steps {p : Path} {step : Step} (h : step ∈ steps p) :
    step.IsProper := by
  rcases List.mem_append.mp h with h | h
  · obtain ⟨piece, hpiece, hstep⟩ := List.mem_filterMap.mp h
    have hslash : Path.slash ∉ piece := Text.not_mem_of_mem_cut hpiece
    simp only [step?] at hstep
    split at hstep
    · cases hstep
    · split at hstep
      · cases hstep
        trivial
      · split at hstep
        · cases hstep
          trivial
        · cases hstep
          exact ⟨by assumption, by assumption, by assumption, hslash⟩
  · split at h
    · obtain rfl : step = .close := by simpa using h
      trivial
    · exact absurd h List.not_mem_nil

/-- The target is in the tree as it says: a node is there, and what is free could be made. -/
def Target.Sound (files : FileTree) : Target → Prop
  | .node place => files.node? place ≠ none
  | .vacant parent name =>
    isName name = true ∧ files.node? parent = some .directory ∧
      files.node? (parent ++ [name]) = none

def Course.Sound (files : FileTree) : Course → Prop
  | .arrived target => target.Sound files
  | .failed _ => True
  | .crossing here _ rest => files.node? here ≠ none ∧ ∀ step ∈ rest, step.IsProper

namespace FileTree

def course (files : FileTree) (purpose : Purpose) : Location → List Step → Course
  | here, [] => .arrived (.node here)
  | here, step :: rest =>
    if purpose = .resolve ∧ step.isIdle ∧ rest ≠ [] then course files purpose here rest
    else
      match step.refusal? purpose here (files.node? here) rest with
      | some cause => .failed cause
      | none =>
        match step with
        | .stay => course files purpose here rest
        | .close => course files purpose here rest
        | .up => course files purpose here.dropLast rest
        | .enter name =>
          .entering (files.node? (here ++ [name])) purpose here name rest
            (course files purpose (here ++ [name]) rest)

def route (files : FileTree) (purpose : Purpose) :
    Nat → Location → List Step → Except Cause Target
  | links, here, steps =>
    match files.course purpose here steps with
    | .arrived target => .ok target
    | .failed cause => .error cause
    | .crossing here link rest =>
      match links with
      | 0 => .error .tooManyLinks
      | links + 1 =>
        if link = [] then .error .notFound
        else
          route files purpose links (if Path.isAbsolute link then [] else here)
            (Path.steps link ++ rest)

variable {files files' : FileTree}

/-- A route arrives before it meets a link, or goes on from there with one link fewer. -/
theorem route_ok_iff {purpose : Purpose} {links : Nat} {here : Location} {steps : List Step}
    {target : Target} :
    files.route purpose links here steps = .ok target ↔
      files.course purpose here steps = .arrived target ∨
        ∃ there link rest fewer, files.course purpose here steps = .crossing there link rest ∧
          links = fewer + 1 ∧ link ≠ [] ∧
            files.route purpose fewer (if Path.isAbsolute link then [] else there)
              (Path.steps link ++ rest) = .ok target := by
  rw [route]
  cases files.course purpose here steps with
  | arrived found => simp
  | failed cause => simp
  | crossing there link rest =>
    cases links with
    | zero => simp
    | succ links => by_cases hlink : link = [] <;> simp [hlink, and_assoc]

theorem location_cons (stop : Stop) (trail : Trail) :
    Trail.location (stop :: trail) = trail.location ++ [stop.name] := by
  simp [Trail.location]

theorem location_tail (trail : Trail) :
    Trail.location trail.tail = trail.location.dropLast := by
  cases trail with
  | nil => rfl
  | cons stop trail => simp [location_cons]

theorem fits_tail {trail : Trail} (h : trail.Fits files) : Trail.Fits files trail.tail := by
  cases trail with
  | nil => exact h
  | cons stop trail => exact h.2

theorem advance_cons (purpose : Purpose) (trail : Trail) (step : Step) (rest : List Step) :
    files.advance purpose trail (step :: rest) =
      if purpose = .resolve ∧ step.isIdle ∧ rest ≠ [] then files.advance purpose trail rest
      else
        match step.refusal? purpose trail.location (some trail.node) rest with
        | some cause => .failed cause
        | none =>
          match step with
          | .stay => files.advance purpose trail rest
          | .close => files.advance purpose trail rest
          | .up => files.advance purpose trail.tail rest
          | .enter name =>
            match (trail.inside files.top).find? name with
            | none =>
              if rest = [] then .arrived (.vacant trail.location name) else .failed .notFound
            | some (.link target, _) =>
              if purpose = .inspect ∧ rest = [] then .arrived (.node (trail.location ++ [name]))
              else .crossing trail target rest
            | some (node, inside) =>
              files.advance purpose (⟨name, node, inside⟩ :: trail) rest := by
  simp only [advance]
  split
  · rfl
  · simp only [Step.refusal?, ne_eq, Option.some.injEq]
    split
    · rfl
    · split
      · rfl
      · cases step with
        | stay => rfl
        | close => rfl
        | up => rfl
        | enter name =>
          dsimp only
          split
          · rfl
          · split
            · rfl
            · split <;> rfl

theorem advance_course (purpose : Purpose) {trail : Trail} (h : trail.Fits files)
    (steps : List Step) :
    (files.advance purpose trail steps).course = files.course purpose trail.location steps := by
  induction steps generalizing trail with
  | nil => rfl
  | cons step rest ih =>
    rw [advance_cons]
    simp only [course, Trail.node?_location h]
    split
    · exact ih h
    · split
      · rfl
      · cases step with
        | stay => exact ih h
        | close => exact ih h
        | up =>
          dsimp only
          rw [← location_tail]
          exact ih (fits_tail h)
        | enter name =>
          -- The trail finds the node in what it holds, the course by its whole location.
          have hfind := Trail.node?_location_append h name
          dsimp only
          cases hinside : (trail.inside files.top).find? name with
          | none =>
            rw [hinside] at hfind
            simp only [hfind, Option.map_none, Course.entering]
            split <;> rfl
          | some found =>
            obtain ⟨node, inside⟩ := found
            rw [hinside] at hfind
            have hdeeper : Trail.Fits files (⟨name, node, inside⟩ :: trail) := ⟨hinside, h⟩
            cases node with
            | link target =>
              simp only [hfind, Option.map_some, Course.entering]
              split <;> rfl
            | file f => simpa [hfind, location_cons, Course.entering] using ih hdeeper
            | directory => simpa [hfind, location_cons, Course.entering] using ih hdeeper

theorem fits_of_crossing {purpose : Purpose} {trail here : Trail} (h : trail.Fits files)
    {steps rest : List Step} {link : Path}
    (hleg : files.advance purpose trail steps = .crossing here link rest) :
    here.Fits files := by
  induction steps generalizing trail with
  | nil => simp [advance] at hleg
  | cons step steps ih =>
    rw [advance_cons] at hleg
    split at hleg
    · exact ih h hleg
    · split at hleg
      · cases hleg
      · cases step with
        | stay => exact ih h hleg
        | close => exact ih h hleg
        | up => exact ih (fits_tail h) hleg
        | enter name =>
          dsimp only at hleg
          split at hleg
          · split at hleg <;> cases hleg
          · split at hleg
            · cases hleg
            · cases hleg
              exact h
          · rename_i node inside _ hinside
            have hdeeper : Trail.Fits files (⟨name, node, inside⟩ :: trail) := ⟨hinside, h⟩
            exact ih hdeeper hleg

theorem follow_eq_route (purpose : Purpose) {trail : Trail} (h : trail.Fits files) (links : Nat)
    (steps : List Step) :
    files.follow purpose links trail steps =
      files.route purpose links trail.location steps := by
  induction links generalizing trail steps with
  | zero =>
    have hcourse := advance_course purpose h steps
    rw [follow, route, ← hcourse]
    cases files.advance purpose trail steps <;> rfl
  | succ links ih =>
    have hcourse := advance_course purpose h steps
    rw [follow, route, ← hcourse]
    cases hleg : files.advance purpose trail steps with
    | arrived target => rfl
    | failed cause => rfl
    | crossing here link rest =>
      simp only [Leg.course]
      split
      · rfl
      · split
        · exact ih (show Trail.Fits files [] from trivial) _
        · exact ih (fits_of_crossing h hleg) _

theorem target_eq_route (files : FileTree) (purpose : Purpose) (p : Path) :
    files.target purpose p =
      if p.contains Path.nul then .error .nulInPath
      else if p = [] then .error .notFound
      else if purpose ≠ .resolve ∧ p.length ≥ pathLimit then .error .nameTooLong
      else files.route purpose mostLinks [] (Path.steps p) := by
  rw [target, follow_eq_route purpose (show Trail.Fits files [] from trivial)]
  rfl

/-- A path leads somewhere if its text is fit for a path and its route arrives there. -/
theorem target_eq_ok_iff {purpose : Purpose} {p : Path} {target : Target} :
    files.target purpose p = .ok target ↔
      Path.nul ∉ p ∧ p ≠ [] ∧ (purpose ≠ .resolve → p.length < pathLimit) ∧
        files.route purpose mostLinks [] (Path.steps p) = .ok target := by
  rw [target_eq_route]
  by_cases hnul : Path.nul ∈ p
  · simp [hnul]
  by_cases hne : p = []
  · simp [hne]
  by_cases hlong : purpose ≠ .resolve ∧ p.length ≥ pathLimit
  · have hnot : ¬ p.length < pathLimit := Nat.not_lt_of_le hlong.2
    simp [hnul, hne, hlong, hnot]
  · have hshort : purpose ≠ .resolve → p.length < pathLimit := fun hpurpose =>
      Nat.lt_of_not_le fun hle => hlong ⟨hpurpose, hle⟩
    rw [if_neg (by simpa using hnul), if_neg hne, if_neg hlong]
    exact ⟨fun h => ⟨hnul, hne, hshort, h⟩, fun h => h.2.2.2⟩

/-- The directories and links of a tree, which are all that its routes run over. -/
def frame (files : FileTree) (place : Location) : Option Node :=
  match files.node? place with
  | some (.file _) => none
  | node => node

theorem frame_eq_some_iff {place : Location} {node : Node} :
    files.frame place = some node ↔ files.node? place = some node ∧ ∀ f, node ≠ .file f := by
  rw [frame]
  split
  · rename_i f hnode
    simp only [hnode, reduceCtorEq, Option.some.injEq, false_iff, not_and]
    intro h hfile
    exact hfile f h.symm
  · rename_i hfile
    constructor
    · intro h
      exact ⟨h, fun f hf => hfile f (hf ▸ h)⟩
    · exact And.left

theorem frame_eq_directory_iff {place : Location} :
    files.frame place = some .directory ↔ files.node? place = some .directory := by
  simp [frame_eq_some_iff]

theorem file_of_frame_eq_none {place : Location} (h : files.frame place = none) {node : Node}
    (hnode : files.node? place = some node) : ∃ f, node = .file f := by
  cases node with
  | file f => exact ⟨f, rfl⟩
  | directory => simp [frame, hnode] at h
  | link target => simp [frame, hnode] at h

theorem course_stuck (purpose : Purpose) {here : Location}
    (h : files.node? here ≠ some .directory) {steps : List Step} (hsteps : steps ≠ []) :
    ∃ cause, files.course purpose here steps = .failed cause := by
  induction steps with
  | nil => exact absurd rfl hsteps
  | cons step rest ih =>
    simp only [course]
    split
    · rename_i hidle
      exact ih hidle.2.2
    · split
      · exact ⟨_, rfl⟩
      · rename_i htaken
        exact absurd (Step.directory_of_refusal?_eq_none htaken) h

/-- Entering what is not in the frame ends the course, in one place and at no link. -/
theorem entering_off_frame (purpose : Purpose) {here : Location} {name : Path} (rest : List Step)
    (h : files.frame (here ++ [name]) = none) :
    let entered := Course.entering (files.node? (here ++ [name])) purpose here name rest
      (files.course purpose (here ++ [name]) rest)
    entered.destination = (if rest = [] then some (here ++ [name]) else none) ∧
      entered.link? = none := by
  cases hnode : files.node? (here ++ [name]) with
  | none =>
    by_cases hrest : rest = [] <;>
      simp [Course.entering, hrest, Course.destination, Course.link?, Target.destination]
  | some node =>
    obtain ⟨f, rfl⟩ := file_of_frame_eq_none h hnode
    by_cases hrest : rest = []
    · subst hrest
      exact ⟨rfl, rfl⟩
    · have hnot : files.node? (here ++ [name]) ≠ some .directory := by simp [hnode]
      obtain ⟨cause, hstuck⟩ := course_stuck purpose hnot hrest
      simp [Course.entering, hstuck, hrest, Course.destination, Course.link?]

theorem entering_congr (hframe : files.frame = files'.frame) {purpose : Purpose} {here : Location}
    {name : Path} {rest : List Step}
    (ih : (files.course purpose (here ++ [name]) rest).destination =
        (files'.course purpose (here ++ [name]) rest).destination ∧
      (files.course purpose (here ++ [name]) rest).link? =
        (files'.course purpose (here ++ [name]) rest).link?) :
    let entered := Course.entering (files.node? (here ++ [name])) purpose here name rest
      (files.course purpose (here ++ [name]) rest)
    let entered' := Course.entering (files'.node? (here ++ [name])) purpose here name rest
      (files'.course purpose (here ++ [name]) rest)
    entered.destination = entered'.destination ∧ entered.link? = entered'.link? := by
  have hnext : files.frame (here ++ [name]) = files'.frame (here ++ [name]) := congrFun hframe _
  cases hf : files.frame (here ++ [name]) with
  | none =>
    have h := entering_off_frame purpose rest hf
    have h' := entering_off_frame purpose rest (hnext.symm.trans hf)
    exact ⟨h.1.trans h'.1.symm, h.2.trans h'.2.symm⟩
  | some node =>
    obtain ⟨hnode, hfile⟩ := frame_eq_some_iff.mp hf
    obtain ⟨hnode', _⟩ := frame_eq_some_iff.mp (hnext.symm.trans hf)
    cases node with
    | file f => exact absurd rfl (hfile f)
    | directory => simpa [hnode, hnode', Course.entering] using ih
    | link target => simp [hnode, hnode', Course.entering]

theorem course_congr (hframe : files.frame = files'.frame) (purpose : Purpose) (here : Location)
    (steps : List Step) :
    (files.course purpose here steps).destination = (files'.course purpose here steps).destination ∧
      (files.course purpose here steps).link? = (files'.course purpose here steps).link? := by
  induction steps generalizing here with
  | nil => exact ⟨rfl, rfl⟩
  | cons step rest ih =>
    have hdirectory : files.node? here = some .directory ↔ files'.node? here = some .directory := by
      rw [← frame_eq_directory_iff, hframe, frame_eq_directory_iff]
    simp only [course, Step.refusal?_congr hdirectory]
    split
    · exact ih here
    · split
      · exact ⟨rfl, rfl⟩
      · cases step with
        | stay => exact ih here
        | close => exact ih here
        | up => exact ih here.dropLast
        | enter name => exact entering_congr hframe (ih (here ++ [name]))

def routeEnd (files : FileTree) (purpose : Purpose) (links : Nat) (here : Location)
    (steps : List Step) : Option Location :=
  (files.route purpose links here steps).toOption.map Target.destination

theorem routeEnd_eq (files : FileTree) (purpose : Purpose) (links : Nat) (here : Location)
    (steps : List Step) :
    files.routeEnd purpose links here steps =
      match (files.course purpose here steps).link?, links with
      | none, _ => (files.course purpose here steps).destination
      | some _, 0 => none
      | some (there, link, rest), links + 1 =>
        if link = [] then none
        else
          files.routeEnd purpose links (if Path.isAbsolute link then [] else there)
            (Path.steps link ++ rest) := by
  rw [routeEnd, route]
  cases files.course purpose here steps with
  | arrived target => rfl
  | failed cause => rfl
  | crossing there link rest =>
    cases links with
    | zero => rfl
    | succ links =>
      by_cases hlink : link = []
      · simp [hlink, Course.link?, Except.toOption]
      · simp [hlink, Course.link?, routeEnd]

theorem routeEnd_congr (hframe : files.frame = files'.frame) (purpose : Purpose) (links : Nat)
    (here : Location) (steps : List Step) :
    files.routeEnd purpose links here steps = files'.routeEnd purpose links here steps := by
  induction links generalizing here steps with
  | zero =>
    obtain ⟨hend, hlink⟩ := course_congr hframe purpose here steps
    rw [routeEnd_eq, routeEnd_eq, hend, hlink]
    split <;> trivial
  | succ links ih =>
    obtain ⟨hend, hlink⟩ := course_congr hframe purpose here steps
    rw [routeEnd_eq, routeEnd_eq, hend, hlink]
    cases (files'.course purpose here steps).link? with
    | none => rfl
    | some met => simp only [ih]

def destination (files : FileTree) (purpose : Purpose) (p : Path) : Option Location :=
  (files.target purpose p).toOption.map Target.destination

theorem destination_congr (hframe : files.frame = files'.frame) (purpose : Purpose) (p : Path) :
    files.destination purpose p = files'.destination purpose p := by
  simp only [destination, target_eq_route]
  split
  · rfl
  · split
    · rfl
    · split
      · rfl
      · exact routeEnd_congr hframe purpose mostLinks [] (Path.steps p)

theorem node?_dropLast {here : Location} (h : files.node? here ≠ none) :
    files.node? here.dropLast ≠ none := by
  by_cases hhere : here = []
  · simpa [hhere] using h
  · obtain ⟨node, hnode⟩ := Option.ne_none_iff_exists'.mp h
    obtain ⟨parent, name, rfl, _, hparent⟩ := files.housed hhere hnode
    simp [hparent]

theorem entering_sound {purpose : Purpose} {here : Location} {name : Path} {rest : List Step}
    {onward : Course} (hdirectory : files.node? here = some .directory) (hname : isName name = true)
    (hrest : ∀ step ∈ rest, step.IsProper)
    (honward : files.node? (here ++ [name]) ≠ none → onward.Sound files) :
    (Course.entering (files.node? (here ++ [name])) purpose here name rest onward).Sound files := by
  cases hnode : files.node? (here ++ [name]) with
  | none =>
    by_cases hlast : rest = []
    · simpa [Course.entering, hlast, Course.Sound] using ⟨hname, hdirectory, hnode⟩
    · simp [Course.entering, hlast, Course.Sound]
  | some node =>
    cases node with
    | file f => exact honward (by simp [hnode])
    | directory => exact honward (by simp [hnode])
    | link target =>
      simp only [Course.entering]
      split
      · simp [Course.Sound, Target.Sound, hnode]
      · exact ⟨by simp [hdirectory], hrest⟩

theorem course_sound (purpose : Purpose) {here : Location} (hhere : files.node? here ≠ none)
    {steps : List Step} (hsteps : ∀ step ∈ steps, step.IsProper) :
    (files.course purpose here steps).Sound files := by
  induction steps generalizing here with
  | nil => exact hhere
  | cons step rest ih =>
    obtain ⟨hstep, hrest⟩ := List.forall_mem_cons.mp hsteps
    simp only [course]
    split
    · exact ih hhere hrest
    · split
      · trivial
      · rename_i htaken
        have hdirectory := Step.directory_of_refusal?_eq_none htaken
        cases step with
        | stay => exact ih hhere hrest
        | close => exact ih hhere hrest
        | up => exact ih (node?_dropLast hhere) hrest
        | enter name =>
          obtain ⟨hsize, hnul⟩ := Step.name_of_refusal?_eq_none htaken
          apply entering_sound hdirectory (isName_of_isProper hstep hsize hnul) hrest
          intro hnext
          exact ih hnext hrest

theorem route_sound {purpose : Purpose} {links : Nat} {here : Location}
    (hhere : files.node? here ≠ none) {steps : List Step} (hsteps : ∀ step ∈ steps, step.IsProper)
    {target : Target}
    (h : files.route purpose links here steps = .ok target) : target.Sound files := by
  induction links using Nat.strongRecOn generalizing here steps with
  | ind links ih =>
    have hsound := course_sound purpose hhere hsteps
    rcases route_ok_iff.mp h with harrived | ⟨there, link, rest, fewer, hcrossing, rfl, _, honward⟩
    · rwa [harrived] at hsound
    · rw [hcrossing] at hsound
      refine ih fewer (Nat.lt_succ_self fewer) ?_ ?_ honward
      · split
        · exact Option.some_ne_none _
        · exact hsound.1
      · intro step hstep
        rcases List.mem_append.mp hstep with hstep | hstep
        · exact Path.isProper_of_mem_steps hstep
        · exact hsound.2 step hstep

theorem route_of_target {purpose : Purpose} {p : Path} {target : Target}
    (h : files.target purpose p = .ok target) :
    files.route purpose mostLinks [] (Path.steps p) = .ok target :=
  (target_eq_ok_iff.mp h).2.2.2

theorem target_sound {purpose : Purpose} {p : Path} {target : Target}
    (h : files.target purpose p = .ok target) : target.Sound files := by
  have htop : files.node? [] ≠ none := Option.some_ne_none Node.directory
  exact route_sound htop (fun _ hstep => Path.isProper_of_mem_steps hstep) (route_of_target h)

end FileTree
end EntryPoints
