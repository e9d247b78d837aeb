import EntryPoints.Proofs.Route

/-!
What a store leaves behind. It puts one file where its path leads and nothing else (`store_spec`),
so the frame of the tree stays and with it the way of every path.
-/
namespace EntryPoints.FileTree

variable {files files' : FileTree}

/-- A path that a file can be made under leads to the same place when it is followed. -/
theorem course_reach_of_create {here : Location} {steps : List Step}
    (h : ∀ cause, files.course .create here steps ≠ .failed cause) :
    files.course .reach here steps = files.course .create here steps := by
  induction steps generalizing here with
  | nil => rfl
  | cons step rest ih =>
    simp only [course, reduceCtorEq, false_and, if_false] at h ⊢
    cases htaken : step.refusal? .create here (files.node? here) rest with
    | some cause => exact absurd (by simp [htaken]) (h cause)
    | none =>
      simp only [htaken, Step.refusal?_reach_of_create htaken] at h ⊢
      cases step with
      | stay => exact ih h
      | close => exact ih h
      | up => exact ih h
      | enter name =>
        dsimp only at h ⊢
        cases hnode : files.node? (here ++ [name]) with
        | none => rfl
        | some node =>
          rw [hnode] at h
          cases node with
          | file f => exact ih h
          | directory => exact ih h
          | link target => simp [Course.entering]

theorem route_reach_of_create {links : Nat} {here : Location} {steps : List Step} {target : Target}
    (h : files.route .create links here steps = .ok target) :
    files.route .reach links here steps = .ok target := by
  induction links generalizing here steps with
  | zero =>
    rw [route] at h ⊢
    rw [course_reach_of_create]
    · exact h
    · intro cause hcause
      simp [hcause] at h
  | succ links ih =>
    rw [route] at h ⊢
    rw [course_reach_of_create]
    · cases hcourse : files.course .create here steps with
      | arrived found => simpa [hcourse] using h
      | failed cause => simp [hcourse] at h
      | crossing there link rest =>
        simp only [hcourse] at h ⊢
        split
        · rename_i hlink
          simp [hlink] at h
        · rename_i hlink
          rw [if_neg hlink] at h
          exact ih h
    · intro cause hcause
      simp [hcause] at h

theorem target_reach_of_create {p : Path} {target : Target}
    (h : files.target .create p = .ok target) : files.target .reach p = .ok target := by
  obtain ⟨hnul, hne, hshort, hroute⟩ := target_eq_ok_iff.mp h
  exact target_eq_ok_iff.mpr
    ⟨hnul, hne, fun _ => hshort (by decide), route_reach_of_create hroute⟩

theorem locate_eq_ok_iff {p : Path} {place : Location} :
    files.locate p = .ok place ↔
      files.destination .reach p = some place ∧ files.node? place ≠ none := by
  cases htarget : files.target .reach p with
  | error cause => simp [locate, destination, htarget, Except.bind, Except.toOption]
  | ok target =>
    have hsound := target_sound htarget
    cases target with
    | node here =>
      have hhere : files.node? here ≠ none := hsound
      simp only [locate, destination, htarget, Except.bind, Except.toOption, Target.place,
        Target.destination, Option.map_some, Option.some.injEq, Except.ok.injEq]
      constructor
      · rintro rfl
        exact ⟨rfl, hhere⟩
      · exact And.left
    | vacant parent name =>
      have hfree : files.node? (parent ++ [name]) = none := hsound.2.2
      simp only [locate, destination, htarget, Except.bind, Except.toOption, Target.place,
        Target.destination, Option.map_some, Option.some.injEq, reduceCtorEq, false_iff, not_and]
      rintro rfl
      simp [hfree]

theorem lookup_eq_ok_iff {p : Path} {node : Node} :
    files.lookup p = .ok node ↔
      ∃ place, files.destination .reach p = some place ∧ files.node? place = some node := by
  constructor
  · intro h
    cases hlocate : files.locate p with
    | error cause => simp [lookup, hlocate, bind, Except.bind] at h
    | ok place =>
      obtain ⟨hdestination, hthere⟩ := locate_eq_ok_iff.mp hlocate
      obtain ⟨found, hfound⟩ := Option.ne_none_iff_exists'.mp hthere
      obtain rfl : found = node := by
        simpa [lookup, hlocate, hfound, bind, Except.bind] using h
      exact ⟨place, hdestination, hfound⟩
  · rintro ⟨place, hdestination, hnode⟩
    have hlocate : files.locate p = .ok place :=
      locate_eq_ok_iff.mpr ⟨hdestination, by simp [hnode]⟩
    simp [lookup, hlocate, hnode, bind, Except.bind]

def site (files : FileTree) (p : Path) : Option Location := files.destination .create p

theorem destination_reach_of_site {p : Path} {place : Location} (h : files.site p = some place) :
    files.destination .reach p = some place := by
  cases htarget : files.target .create p with
  | error cause => simp [site, destination, htarget, Except.toOption] at h
  | ok target =>
    rw [site, destination, htarget] at h
    rw [destination, target_reach_of_create htarget]
    exact h

theorem site_congr (hframe : files.frame = files'.frame) (p : Path) :
    files.site p = files'.site p :=
  destination_congr hframe .create p

/-- A store puts its file where the path leads, which was free or held a file, and does no more. -/
theorem store_spec {p : Path} {f : File} (h : files.store p f = .ok files') :
    ∃ place, files.site p = some place ∧ files.frame place = none ∧
      ∀ k, files'.node? k = if k = place then some (.file f) else files.node? k := by
  cases htarget : files.target .create p with
  | error cause => simp [store, htarget] at h
  | ok target =>
    have hsite : files.site p = some target.destination := by
      simp [site, destination, htarget, Except.toOption]
    have hsound := target_sound htarget
    cases target with
    | vacant parent name =>
      obtain ⟨hname, hparent, hfree⟩ := hsound
      have haccepts : files.Accepts parent name := ⟨hname, hparent, by simp [hfree]⟩
      simp only [store, htarget, Except.ok.injEq] at h
      subst h
      exact ⟨parent ++ [name], hsite, by simp [frame, hfree], node?_put haccepts⟩
    | node place =>
      simp only [store, htarget] at h
      split at h
      · -- What takes the place of a file goes into the directory that the file lies in.
        rename_i old name hold hlast
        have hplace : place ≠ [] := by
          rintro rfl
          simp at hlast
        obtain ⟨parent, last, rfl, hname, hparent⟩ := files.housed hplace hold
        obtain rfl : last = name := by simpa using hlast
        have haccepts : files.Accepts parent last := ⟨hname, hparent, by simp [hold]⟩
        simp only [List.dropLast_concat, Except.ok.injEq] at h
        subst h
        exact ⟨parent ++ [last], hsite, by simp [frame, hold], node?_put haccepts⟩
      · cases h

def Takes (files : FileTree) (p : Path) : Prop :=
  ∃ place, files.site p = some place ∧ files.frame place = none

theorem takes_congr (hframe : files.frame = files'.frame) {p : Path} :
    files.Takes p ↔ files'.Takes p := by
  simp only [Takes, site_congr hframe, hframe]

theorem takes_iff {p : Path} {f : File} :
    files.Takes p ↔ ∃ files', files.store p f = .ok files' := by
  constructor
  · rintro ⟨place, hsite, hframe⟩
    cases htarget : files.target .create p with
    | error cause => simp [site, destination, htarget, Except.toOption] at hsite
    | ok target =>
      obtain rfl : target.destination = place := by
        simpa [site, destination, htarget, Except.toOption] using hsite
      cases target with
      | vacant parent name => exact ⟨_, by rw [store, htarget]⟩
      | node here =>
        obtain ⟨node, hnode⟩ := Option.ne_none_iff_exists'.mp (target_sound htarget)
        obtain ⟨old, rfl⟩ := file_of_frame_eq_none hframe hnode
        have hhere : here ≠ [] := by
          rintro rfl
          cases hnode
        obtain ⟨parent, name, rfl, _, _⟩ := files.housed hhere hnode
        refine ⟨files.put (parent ++ [name]).dropLast name (.file f), ?_⟩
        simp only [store, htarget, hnode, List.getLast?_concat]
  · rintro ⟨files', h⟩
    obtain ⟨place, hsite, hframe, _⟩ := store_spec h
    exact ⟨place, hsite, hframe⟩

theorem frame_store {p : Path} {f : File} (h : files.store p f = .ok files') :
    files'.frame = files.frame := by
  obtain ⟨place, _, hfree, hnode⟩ := store_spec h
  funext k
  by_cases hk : k = place
  · subst hk
    rw [hfree]
    simp [frame, hnode]
  · simp [frame, hnode, hk]

theorem lookup_of_site {p : Path} {place : Location} (hsite : files.site p = some place)
    {f : File} (hnode : files.node? place = some (.file f)) : files.lookup p = .ok (.file f) :=
  lookup_eq_ok_iff.mpr ⟨place, destination_reach_of_site hsite, hnode⟩

theorem isExecutable_iff {p : Path} :
    files.isExecutable p = true ↔
      ∃ place f, files.destination .reach p = some place ∧ files.node? place = some (.file f) ∧
        f.isExecutable = true := by
  constructor
  · intro h
    rw [isExecutable] at h
    split at h
    · rename_i f hlookup
      obtain ⟨place, hdestination, hnode⟩ := lookup_eq_ok_iff.mp hlookup
      exact ⟨place, f, hdestination, hnode, h⟩
    · cases h
  · rintro ⟨place, f, hdestination, hnode, hf⟩
    rw [isExecutable, lookup_eq_ok_iff.mpr ⟨place, hdestination, hnode⟩]
    exact hf

end EntryPoints.FileTree
