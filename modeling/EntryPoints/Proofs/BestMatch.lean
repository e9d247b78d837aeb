import Mathlib.Data.List.Basic
import EntryPoints.Proofs.Reaches

/-!
What a search finds, told without a walk. Directories of the staged tree are compared by the names
that lead to them, name by name and byte by byte. A walk comes to them in this order, so the first
match that it meets is the least of all (`find?_eq_iff`).
-/
namespace EntryPoints

namespace Contents

theorem mem_nodes_of_node? {c : Contents} {place : Location} {node : Node} (hne : place ≠ [])
    (h : c.node? place = some node) : (place, node) ∈ c.nodes := by
  induction c generalizing place with
  | empty =>
    rw [node?_empty hne] at h
    cases h
  | entry n held inside rest ihinside ihrest =>
    cases place with
    | nil => exact absurd rfl hne
    | cons name more =>
      by_cases hname : name = n
      · subst hname
        by_cases hmore : more = []
        · subst hmore
          have hheld : held = node := by simpa [node?, find?] using h
          simp [nodes, hheld]
        · have hdeeper : inside.node? more = some node := by simpa [node?, find?, hmore] using h
          simp [nodes, ihinside hmore hdeeper]
      · have hlater : rest.node? (name :: more) = some node := by
          simpa [node?, find?, hname] using h
        exact List.mem_append_right _ (ihrest hne hlater)

theorem exists_at?_of_node? {c : Contents} {place more : Location} {node : Node} (hmore : more ≠ [])
    (h : c.node? (place ++ more) = some node) : ∃ inside, c.at? place = some inside := by
  induction place generalizing c with
  | nil => exact ⟨c, rfl⟩
  | cons name place ih =>
    cases hfind : c.find? name with
    | none => simp [node?, hfind] at h
    | some found =>
      have hdeeper : found.2.node? (place ++ more) = some node := by
        simpa [node?, hfind, hmore] using h
      simpa [at?, hfind] using ih hdeeper

theorem lt_of_follows {a : Path} {c : Contents} (h : c.Follows a) {place : Location} {node : Node}
    (hnode : (place, node) ∈ c.nodes) (more : Location) : a :: more < place := by
  induction c with
  | empty => exact absurd hnode List.not_mem_nil
  | entry n held inside rest _ ihrest =>
    rcases List.mem_append.mp hnode with hnode | hnode
    · have hhead : ∃ deeper, place = n :: deeper := by
        rcases List.mem_cons.mp hnode with hhere | hnode
        · exact ⟨[], congrArg Prod.fst hhere⟩
        · obtain ⟨deeper, _, hplace⟩ := List.mem_map.mp hnode
          exact ⟨deeper.1, (congrArg Prod.fst hplace).symm⟩
      obtain ⟨deeper, rfl⟩ := hhead
      exact List.cons_lt_cons_iff.mpr (.inl h.1)
    · exact ihrest h.2 hnode

theorem ordered_nodes {c : Contents} (h : c.Sound) :
    (c.nodes.map Prod.fst).Pairwise (· < ·) := by
  induction c with
  | empty => exact .nil
  | entry n held inside rest ihinside ihrest =>
    obtain ⟨_, hfollows, _, hinside, hrest⟩ := h
    have hsplit : (entry n held inside rest).nodes.map Prod.fst =
        [n] :: (inside.nodes.map Prod.fst).map (n :: ·) ++ rest.nodes.map Prod.fst := by
      simp [nodes, Function.comp_def]
    have hlater : ∀ more, ∀ later ∈ rest.nodes.map Prod.fst, n :: more < later := by
      intro more later hmem
      obtain ⟨⟨_, node⟩, hnode, rfl⟩ := List.mem_map.mp hmem
      exact lt_of_follows hfollows hnode more
    rw [hsplit, List.cons_append, List.pairwise_cons, List.pairwise_append, List.pairwise_map]
    -- A directory stands before what it holds, and both before whatever has a later name.
    refine ⟨?_, ?_, ihrest hrest, ?_⟩
    · intro later hmem
      rcases List.mem_append.mp hmem with hmem | hmem
      · obtain ⟨deeper, hdeeper, rfl⟩ := List.mem_map.mp hmem
        obtain ⟨⟨_, node⟩, hnode, rfl⟩ := List.mem_map.mp hdeeper
        obtain ⟨hne, _⟩ := node?_of_mem_nodes hinside hnode
        obtain ⟨first, more, rfl⟩ := List.exists_cons_of_ne_nil hne
        exact List.cons_lt_cons_iff.mpr (.inr ⟨rfl, List.nil_lt_cons first more⟩)
      · exact hlater [] later hmem
    · apply (ihinside hinside).imp
      intro a b hlt
      exact List.cons_lt_cons_iff.mpr (.inr ⟨rfl, hlt⟩)
    · intro place hmem later hmem'
      obtain ⟨deeper, _, rfl⟩ := List.mem_map.mp hmem
      exact hlater deeper later hmem'

end Contents

namespace FileTree

variable {files : FileTree} {root : Path} {reach : Reach} {k : Location}

/-- Names lead from the root to a directory, and through none but directories. No names lead to the
root itself, which is one of them unless it is a link. -/
def LeadsToDirectory (files : FileTree) (root : Path) (k : Location) : Prop :=
  if k = [] then files.isOwnDirectory root = true
  else ∃ place, files.locate root = .ok place ∧ files.node? (place ++ k) = some .directory

def pathBelow (root : Path) (k : Location) : Path :=
  if k = [] then root else Path.join root (Path.ofPieces k)

def reachedBelow (files : FileTree) (root : Path) (reach : Reach) : List Location :=
  match files.locate root with
  | .ok place =>
    (files.below place).filterMap fun (k, node) =>
      if node = .directory && reach.covers k.length then some k else none
  | .error _ => []

/-- The names that lead to all directories that the reach covers. -/
def reached (files : FileTree) (root : Path) (reach : Reach) : List Location :=
  (if reach.covers 0 && files.isOwnDirectory root then [[]] else []) ++
    files.reachedBelow root reach

theorem directories_eq_map (files : FileTree) (root : Path) (reach : Reach) :
    files.directories root reach = (files.reached root reach).map (pathBelow root) := by
  unfold directories reached reachedBelow
  rw [List.map_append]
  apply congr (congrArg _ _)
  · cases files.locate root with
    | error cause => rfl
    | ok place =>
      dsimp only
      rw [List.map_filterMap]
      apply List.filterMap_congr
      rintro ⟨k, node⟩ hmem
      -- The root has a path of its own, but it is not below itself.
      have hne : k ≠ [] := (node?_of_mem_below hmem).1
      dsimp only
      split <;> simp [pathBelow, hne]
  · split <;> rfl

theorem mem_below_iff {place : Location} {node : Node} (h : k ≠ []) :
    (k, node) ∈ files.below place ↔ files.node? (place ++ k) = some node := by
  constructor
  · intro hmem
    exact (node?_of_mem_below hmem).2
  · intro hnode
    obtain ⟨inside, hinside⟩ := Contents.exists_at?_of_node? h hnode
    rw [node?, Contents.node?_append hinside h] at hnode
    rw [below, hinside]
    exact Contents.mem_nodes_of_node? h hnode

theorem mem_reachedBelow_iff : k ∈ files.reachedBelow root reach ↔
    k ≠ [] ∧ (∃ place, files.locate root = .ok place ∧
      files.node? (place ++ k) = some .directory) ∧ reach.covers k.length = true := by
  unfold reachedBelow
  split
  · rename_i place hplace
    constructor
    · intro hmem
      obtain ⟨⟨k', node⟩, hbelow, hfit⟩ := List.mem_filterMap.mp hmem
      obtain ⟨hfit, ⟨⟩⟩ := Option.ite_none_right_eq_some.mp hfit
      obtain ⟨hdirectory, hcovers⟩ : node = .directory ∧ reach.covers k.length = true := by
        simpa using hfit
      obtain ⟨hne, hnode⟩ := node?_of_mem_below hbelow
      exact ⟨hne, ⟨place, hplace, hdirectory ▸ hnode⟩, hcovers⟩
    · rintro ⟨hne, ⟨place', hplace', hnode⟩, hcovers⟩
      obtain rfl : place = place' := Except.ok.inj (hplace.symm.trans hplace')
      have hbelow := (mem_below_iff hne).mpr hnode
      exact List.mem_filterMap.mpr ⟨(k, .directory), hbelow, by simp [hcovers]⟩
  · rename_i hplace
    simp [hplace]

theorem mem_reached_iff : k ∈ files.reached root reach ↔
    files.LeadsToDirectory root k ∧ reach.covers k.length = true := by
  rw [reached, List.mem_append, mem_reachedBelow_iff, LeadsToDirectory]
  by_cases hk : k = []
  · subst hk
    simp [and_comm]
  · simp [hk]

theorem ordered_below (files : FileTree) (place : Location) :
    (files.below place).Pairwise fun a b => a.1 < b.1 := by
  unfold below
  cases hat : files.top.at? place with
  | none => exact .nil
  | some inside =>
    exact List.pairwise_map.mp (Contents.ordered_nodes (Contents.sound_of_at? files.sound hat))

theorem ordered_reached (files : FileTree) (root : Path) (reach : Reach) :
    (files.reached root reach).Pairwise (· < ·) := by
  rw [reached, List.pairwise_append]
  refine ⟨?_, ?_, ?_⟩
  · split <;> simp
  · unfold reachedBelow
    split
    · rename_i place _
      apply (files.ordered_below place).filterMap
      intro a b hlt k hk k' hk'
      obtain ⟨_, ⟨⟩⟩ := Option.ite_none_right_eq_some.mp hk
      obtain ⟨_, ⟨⟩⟩ := Option.ite_none_right_eq_some.mp hk'
      exact hlt
    · exact .nil
  · intro k hk k' hk'
    obtain ⟨first, more, rfl⟩ := List.exists_cons_of_ne_nil (mem_reachedBelow_iff.mp hk').1
    have htop : k = [] := by
      split at hk
      · exact List.mem_singleton.mp hk
      · exact absurd hk List.not_mem_nil
    rw [htop]
    exact List.nil_lt_cons first more

end FileTree

theorem least_of_find? {ks : List Location} (hks : ks.Pairwise (· < ·)) {p : Location → Bool}
    {k : Location} (h : ks.find? p = some k) :
    (k ∈ ks ∧ p k = true) ∧ ∀ k' ∈ ks, p k' = true → k' = k ∨ k < k' := by
  refine ⟨⟨List.mem_of_find?_eq_some h, List.find?_some h⟩, ?_⟩
  intro k' hmem hfits
  obtain ⟨_, before, after, rfl, hbefore⟩ := List.find?_eq_some_iff_append.mp h
  rcases List.mem_append.mp hmem with hearlier | hlater
  · have hnot := hbefore k' hearlier
    rw [hfits] at hnot
    cases hnot
  · rcases List.mem_cons.mp hlater with hhere | hlater
    · exact .inl hhere
    · have hafter := (List.pairwise_cons.mp (List.pairwise_append.mp hks).2.1).1
      exact .inr (hafter k' hlater)

namespace Search
open FileTree (pathBelow)

variable {s : Search} {files : FileTree} {root : Path} {name : Text}

def knownPath (root : Path) (name : Text) (dir : Path) : Path :=
  Path.join (Path.join root dir) name

/-- The directory that names lead to is within reach and has the executable. -/
structure IsCandidate (s : Search) (files : FileTree) (root : Path) (name : Text)
    (k : Location) : Prop where
  leads : files.LeadsToDirectory root k
  covered : s.reach.covers k.length = true
  runs : files.isExecutable (Path.join (pathBelow root k) name) = true

def Unknown (s : Search) (files : FileTree) (root : Path) (name : Text) : Prop :=
  ∀ dir ∈ s.binDirs, files.isExecutable (knownPath root name dir) = false

/-- What there is to be found: the executable of the first known directory that has it, or else that
of the least directory within reach, or else what the host has under the name. -/
inductive BestMatch (s : Search) (files : FileTree) (root : Path) (name : Text) :
    Option Match → Prop where
  | known {before after : List Path} {dir : Path} (hsplit : s.binDirs = before ++ dir :: after)
      (hbefore : ∀ b ∈ before, files.isExecutable (knownPath root name b) = false)
      (hruns : files.isExecutable (knownPath root name dir) = true) :
      BestMatch s files root name (some ⟨name, knownPath root name dir, .binaryDirectory⟩)
  | staged (hunknown : s.Unknown files root name) {k : Location}
      (hcandidate : s.IsCandidate files root name k)
      (hleast : ∀ k', s.IsCandidate files root name k' → k' = k ∨ k < k') :
      BestMatch s files root name (some ⟨name, Path.join (pathBelow root k) name, .stagedTree⟩)
  | host (hunknown : s.Unknown files root name)
      (hmissing : ∀ k, ¬ s.IsCandidate files root name k) {path : Path}
      (hhost : s.host.find? name = some path) :
      BestMatch s files root name (some ⟨name, path, .host⟩)
  | nothing (hunknown : s.Unknown files root name)
      (hmissing : ∀ k, ¬ s.IsCandidate files root name k)
      (hhost : s.host.find? name = none) : BestMatch s files root name none

theorem isCandidate_iff {k : Location} : s.IsCandidate files root name k ↔
    k ∈ files.reached root s.reach ∧
      files.isExecutable (Path.join (pathBelow root k) name) = true := by
  rw [FileTree.mem_reached_iff]
  exact ⟨fun ⟨hleads, hcovered, hruns⟩ => ⟨⟨hleads, hcovered⟩, hruns⟩,
    fun ⟨⟨hleads, hcovered⟩, hruns⟩ => ⟨hleads, hcovered, hruns⟩⟩

theorem inBinDirs?_of_first {before after : List Path} {dir : Path}
    (hsplit : s.binDirs = before ++ dir :: after)
    (hbefore : ∀ b ∈ before, files.isExecutable (knownPath root name b) = false)
    (hruns : files.isExecutable (knownPath root name dir) = true) :
    s.inBinDirs? files root name = some (knownPath root name dir) := by
  rw [inBinDirs?, hsplit, List.map_append, List.find?_append, List.find?_eq_none.mpr]
  · exact List.find?_cons_of_pos hruns
  · intro path hpath
    obtain ⟨b, hb, rfl⟩ := List.mem_map.mp hpath
    simpa [knownPath] using hbefore b hb

theorem inBinDirs?_eq_none_iff :
    s.inBinDirs? files root name = none ↔ s.Unknown files root name := by
  simp [inBinDirs?, Unknown, knownPath]

theorem exists_first_of_inBinDirs? {path : Path} (h : s.inBinDirs? files root name = some path) :
    ∃ before dir after, s.binDirs = before ++ dir :: after ∧
      (∀ b ∈ before, files.isExecutable (knownPath root name b) = false) ∧
      files.isExecutable (knownPath root name dir) = true ∧ path = knownPath root name dir := by
  rw [inBinDirs?, List.find?_map, Option.map_eq_some_iff] at h
  obtain ⟨dir, hfirst, rfl⟩ := h
  obtain ⟨hruns, before, after, hsplit, hbefore⟩ := List.find?_eq_some_iff_append.mp hfirst
  refine ⟨before, dir, after, hsplit, ?_, hruns, rfl⟩
  intro b hb
  simpa [knownPath] using hbefore b hb

theorem inTree?_eq_find? (s : Search) (files : FileTree) (root : Path) (name : Text) :
    s.inTree? files root name =
      ((files.reached root s.reach).find? fun k =>
        files.isExecutable (Path.join (pathBelow root k) name)).map
          fun k => Path.join (pathBelow root k) name := by
  rw [inTree?, FileTree.directories_eq_map, List.map_map, List.find?_map]
  rfl

theorem inTree?_eq_none_iff :
    s.inTree? files root name = none ↔ ∀ k, ¬ s.IsCandidate files root name k := by
  rw [inTree?_eq_find?, Option.map_eq_none_iff, List.find?_eq_none]
  simp only [isCandidate_iff, not_and]

theorem exists_least_of_inTree? {path : Path} (h : s.inTree? files root name = some path) :
    ∃ k, s.IsCandidate files root name k ∧
      (∀ k', s.IsCandidate files root name k' → k' = k ∨ k < k') ∧
      path = Path.join (pathBelow root k) name := by
  rw [inTree?_eq_find?, Option.map_eq_some_iff] at h
  obtain ⟨k, hfirst, rfl⟩ := h
  obtain ⟨hcandidate, hleast⟩ :=
    least_of_find? (FileTree.ordered_reached files root s.reach) hfirst
  refine ⟨k, isCandidate_iff.mpr hcandidate, fun k' hk' => ?_, rfl⟩
  obtain ⟨hmem, hruns⟩ := isCandidate_iff.mp hk'
  exact hleast k' hmem hruns

/-- The least candidate decides, for there is no other that is least. -/
theorem inTree?_of_least {k : Location} (hcandidate : s.IsCandidate files root name k)
    (hleast : ∀ k', s.IsCandidate files root name k' → k' = k ∨ k < k') :
    s.inTree? files root name = some (Path.join (pathBelow root k) name) := by
  cases hfound : s.inTree? files root name with
  | none => exact absurd hcandidate (inTree?_eq_none_iff.mp hfound k)
  | some path =>
    obtain ⟨k', hcandidate', hleast', rfl⟩ := exists_least_of_inTree? hfound
    -- Both are least, and neither precedes the other.
    rcases hleast k' hcandidate' with rfl | hlt
    · rfl
    · rcases hleast' k hcandidate with rfl | hlt'
      · rfl
      · exact absurd (Key.trans hlt hlt') (Key.irrefl k)

theorem find?_eq_iff {found : Option Match} :
    s.find? files root name = found ↔ s.BestMatch files root name found := by
  constructor
  · rintro rfl
    rw [find?]
    split
    · rename_i path hknown
      obtain ⟨before, dir, after, hsplit, hbefore, hruns, rfl⟩ := exists_first_of_inBinDirs? hknown
      exact .known hsplit hbefore hruns
    · rename_i hknown
      have hunknown := inBinDirs?_eq_none_iff.mp hknown
      split
      · rename_i path htree
        obtain ⟨k, hcandidate, hleast, rfl⟩ := exists_least_of_inTree? htree
        exact .staged hunknown hcandidate hleast
      · rename_i htree
        have hmissing := inTree?_eq_none_iff.mp htree
        cases hhost : s.host.find? name with
        | some path => exact .host hunknown hmissing hhost
        | none => exact .nothing hunknown hmissing hhost
  · intro h
    cases h with
    | known hsplit hbefore hruns => rw [find?, inBinDirs?_of_first hsplit hbefore hruns]
    | staged hunknown hcandidate hleast =>
      rw [find?, inBinDirs?_eq_none_iff.mpr hunknown, inTree?_of_least hcandidate hleast]
    | host hunknown hmissing hhost =>
      rw [find?, inBinDirs?_eq_none_iff.mpr hunknown, inTree?_eq_none_iff.mpr hmissing, hhost]
      rfl
    | nothing hunknown hmissing hhost =>
      rw [find?, inBinDirs?_eq_none_iff.mpr hunknown, inTree?_eq_none_iff.mpr hmissing, hhost]
      rfl

/-- Names are compared one by one: the spelling `a-b` comes before `a/z`, but the name `a` is less
than `a-b`. -/
example :
    ((FileTree.empty.addFile (Text.of "/stage/a-b/tool") ⟨[], 0o755⟩).bind
      (·.addFile (Text.of "/stage/a/z/tool") ⟨[], 0o755⟩)).map (fun files =>
        (Search.mk [] .full (.named .empty)).find? files (Text.of "/stage") (Text.of "tool")) =
      .ok (some ⟨Text.of "tool", Text.of "/stage/a/z/tool", .stagedTree⟩) := by rfl

theorem find?_none_iff : s.find? files root name = none ↔
    s.Unknown files root name ∧ (∀ k, ¬ s.IsCandidate files root name k) ∧
      s.host.find? name = none := by
  rw [find?_eq_iff]
  constructor
  · intro h
    cases h with
    | nothing hunknown hmissing hhost => exact ⟨hunknown, hmissing, hhost⟩
  · rintro ⟨hunknown, hmissing, hhost⟩
    exact .nothing hunknown hmissing hhost

theorem find?_with_host (s : Search) (files : FileTree) (root : Path) (name : Text) (host : Host) :
    ({ s with host } : Search).find? files root name =
      match s.inBinDirs? files root name with
      | some path => some ⟨name, path, .binaryDirectory⟩
      | none =>
        match s.inTree? files root name with
        | some path => some ⟨name, path, .stagedTree⟩
        | none => (host.find? name).map (⟨name, ·, .host⟩) := rfl

/-- The host is asked last, so it does not bear on what the staged root has. -/
theorem find?_with_host_of_staged {m : Match} (hfound : s.find? files root name = some m)
    (horigin : m.origin ≠ .host) (host : Host) :
    ({ s with host } : Search).find? files root name = some m := by
  rw [find?_with_host]
  rw [find?] at hfound
  cases hknown : s.inBinDirs? files root name with
  | some path => rwa [hknown] at hfound
  | none =>
    rw [hknown] at hfound
    cases htree : s.inTree? files root name with
    | some path => rwa [htree] at hfound
    | none =>
      rw [htree] at hfound
      obtain ⟨path, _, rfl⟩ := Option.map_eq_some_iff.mp hfound
      exact absurd rfl horigin

/-- What a search finds, and what the host has to do with it: nothing where the staged root has a
match, and else no more than what it has under the one name. -/
structure LocatesBest (s : Search) (files : FileTree) (root : Path) (name : Text) : Prop where
  best (found : Option Match) :
    s.find? files root name = found ↔ s.BestMatch files root name found
  nothing : s.find? files root name = none ↔ s.Unknown files root name ∧
    (∀ k, ¬ s.IsCandidate files root name k) ∧ s.host.find? name = none
  staged (m : Match) : s.find? files root name = some m → m.origin ≠ .host → ∀ host,
    ({ s with host } : Search).find? files root name = some m
  named (host : Host) : host.find? name = s.host.find? name →
    ({ s with host } : Search).find? files root name = s.find? files root name

theorem locatesBest (s : Search) (files : FileTree) (root : Path) (name : Text) :
    s.LocatesBest files root name where
  best found := find?_eq_iff
  nothing := find?_none_iff
  staged m hfound horigin := find?_with_host_of_staged hfound horigin
  named host hsame := by
    rw [find?_with_host, hsame]
    rfl

end Search

end EntryPoints
