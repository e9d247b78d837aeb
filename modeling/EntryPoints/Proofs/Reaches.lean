import EntryPoints.FileTree.Build
import EntryPoints.Proofs.FormCases

/-!
How far a search goes. A reach picks directories of the staged tree by their depth, so a wider one
tries the same candidates and more, in the same order. Reaches differ only where one of them finds
something in the tree (`find?_eq_of_not_findsInTree`); what a wider one finds may lie elsewhere, for
deeper directories come before the next one on their level.
-/
namespace EntryPoints

def Reach.Within (r r' : Reach) : Prop := ∀ n, r.covers n = true → r'.covers n = true

theorem Reach.within_full (r : Reach) : r.Within .full := fun _ _ => rfl

theorem Reach.bounded_within {d d' : Nat} (h : d ≤ d') :
    (Reach.bounded d).Within (.bounded d') := by
  intro n hcovers
  simp only [covers, decide_eq_true_eq] at hcovers ⊢
  omega

theorem Contents.node?_of_mem_nodes {c : Contents} (h : c.Sound) {place : Location} {node : Node}
    (hnode : (place, node) ∈ c.nodes) : place ≠ [] ∧ c.node? place = some node := by
  induction c generalizing place with
  | empty => exact absurd hnode List.not_mem_nil
  | entry n _ inside rest ihinside ihrest =>
    obtain ⟨_, hfollows, _, hinside, hrest⟩ := h
    rcases List.mem_append.mp hnode with hnode | hnode
    · rcases List.mem_cons.mp hnode with hhere | hnode
      · cases hhere
        exact ⟨List.cons_ne_nil _ _, node?_entry n node inside rest⟩
      · obtain ⟨⟨deeper, _⟩, hdeeper, hplace⟩ := List.mem_map.mp hnode
        cases hplace
        obtain ⟨hne, hfound⟩ := ihinside hinside hdeeper
        refine ⟨List.cons_ne_nil _ _, ?_⟩
        simp [node?, find?, hne, hfound]
    · obtain ⟨hne, hfound⟩ := ihrest hrest hnode
      refine ⟨hne, ?_⟩
      cases place with
      | nil => exact absurd rfl hne
      | cons k place =>
        have hk : k ≠ n := by
          rintro rfl
          simp [node?, find?_eq_none_of_follows hfollows] at hfound
        simpa [node?, find?, hk] using hfound

namespace FileTree

variable {files : FileTree} {root : Path}

theorem node?_of_mem_below {place more : Location} {node : Node}
    (h : (more, node) ∈ files.below place) :
    more ≠ [] ∧ files.node? (place ++ more) = some node := by
  obtain ⟨_, hat, hsound, hmem⟩ := nodes_of_mem_below h
  obtain ⟨hne, hnode⟩ := Contents.node?_of_mem_nodes hsound hmem
  refine ⟨hne, ?_⟩
  rw [node?, Contents.node?_append hat hne, hnode]

/-- The directories that a search can come to, each behind its depth below the root. -/
def levels (files : FileTree) (root : Path) : List (Nat × Path) :=
  (if files.isOwnDirectory root then [(0, root)] else []) ++
    match files.locate root with
    | .ok place =>
      (files.below place).filterMap fun (more, node) =>
        if node = .directory then some (more.length, Path.join root (Path.ofPieces more))
        else none
    | .error _ => []

theorem directories_eq_filter (files : FileTree) (root : Path) (r : Reach) :
    files.directories root r = ((files.levels root).filter (r.covers ·.1)).map Prod.snd := by
  unfold directories levels
  rw [List.filter_append, List.map_append]
  apply congr (congrArg _ _)
  · cases files.locate root with
    | error cause => rfl
    | ok place =>
      dsimp only
      rw [List.filter_filterMap, List.map_filterMap]
      congr 1
      funext child
      by_cases hnode : child.2 = .directory <;> cases hcovers : r.covers child.1.length <;>
        simp [hnode, hcovers, Option.filter]
  · cases hcovers : r.covers 0 <;> cases hown : files.isOwnDirectory root <;> simp [hcovers]

/-- The root stands on the lowest level alone. -/
theorem mem_levels {n : Nat} {dir : Path} (h : (n, dir) ∈ files.levels root) :
    n = 0 ∧ dir = root ∨
      ∃ place more, files.locate root = .ok place ∧
        files.node? (place ++ more) = some .directory ∧ more.length = n ∧ 0 < n := by
  rcases List.mem_append.mp h with htop | hinner
  · split at htop
    · obtain ⟨rfl, rfl⟩ : n = 0 ∧ dir = root := by simpa using htop
      exact .inl ⟨rfl, rfl⟩
    · exact absurd htop List.not_mem_nil
  · split at hinner
    · rename_i place hplace
      obtain ⟨⟨more, node⟩, hbelow, hdir⟩ := List.mem_filterMap.mp hinner
      dsimp only at hdir
      split at hdir
      · rename_i hnode
        obtain ⟨hne, hfound⟩ := node?_of_mem_below hbelow
        cases hdir
        exact .inr ⟨place, more, hplace, hnode ▸ hfound, rfl, List.length_pos_iff.mpr hne⟩
      · cases hdir
    · exact absurd hinner List.not_mem_nil

theorem mem_directories_of_within {r r' : Reach} (h : r.Within r') {dir : Path}
    (hdir : dir ∈ files.directories root r) : dir ∈ files.directories root r' := by
  rw [directories_eq_filter] at hdir ⊢
  obtain ⟨level, hlevel, rfl⟩ := List.mem_map.mp hdir
  obtain ⟨hmem, hcovers⟩ := List.mem_filter.mp hlevel
  exact List.mem_map.mpr ⟨level, List.mem_filter.mpr ⟨hmem, h level.1 hcovers⟩, rfl⟩

def IsWithinDepth (files : FileTree) (root : Path) (d : Nat) : Prop :=
  ∀ place more, files.locate root = .ok place →
    files.node? (place ++ more) = some .directory → more.length ≤ d

theorem directories_of_isWithinDepth {d : Nat} (h : files.IsWithinDepth root d) :
    files.directories root (.bounded d) = files.directories root .full := by
  rw [directories_eq_filter, directories_eq_filter]
  congr 1
  apply List.filter_congr
  rintro ⟨n, dir⟩ hlevel
  have hn : n ≤ d := by
    rcases mem_levels hlevel with ⟨rfl, _⟩ | ⟨place, more, hplace, hnode, rfl, _⟩
    · omega
    · exact h place more hplace hnode
  simpa [Reach.covers] using hn

theorem eq_root_of_mem_directories {dir : Path} (h : dir ∈ files.directories root (.bounded 0)) :
    dir = root := by
  rw [directories_eq_filter] at h
  obtain ⟨⟨n, _⟩, hlevel, rfl⟩ := List.mem_map.mp h
  obtain ⟨hmem, hcovers⟩ := List.mem_filter.mp hlevel
  have hn : n ≤ 0 := by simpa [Reach.covers] using hcovers
  rcases mem_levels hmem with ⟨_, hroot⟩ | ⟨_, _, _, _, _, hpos⟩
  · exact hroot
  · omega

theorem directories_disabled (files : FileTree) (root : Path) :
    files.directories root .disabled = [] := by
  rw [directories_eq_filter]
  simp [Reach.covers]

end FileTree

namespace Search

variable {s : Search} {files : FileTree} {root : Path} {name : Text} {r r' : Reach}

def reaching (s : Search) (r : Reach) : Search := { s with reach := r }

theorem find?_reaching (s : Search) (files : FileTree) (root : Path) (name : Text) (r : Reach) :
    (s.reaching r).find? files root name =
      match s.inBinDirs? files root name with
      | some path => some ⟨name, path, .binaryDirectory⟩
      | none =>
        match (s.reaching r).inTree? files root name with
        | some path => some ⟨name, path, .stagedTree⟩
        | none => (s.host.find? name).map (⟨name, ·, .host⟩) := rfl

theorem inTree?_isSome_iff :
    ((s.reaching r).inTree? files root name).isSome = true ↔
      ∃ dir ∈ files.directories root r, files.isExecutable (Path.join dir name) = true := by
  unfold inTree?
  rw [List.find?_isSome]
  constructor
  · rintro ⟨path, hpath, hruns⟩
    obtain ⟨dir, hdir, rfl⟩ := List.mem_map.mp hpath
    exact ⟨dir, hdir, hruns⟩
  · rintro ⟨dir, hdir, hruns⟩
    exact ⟨Path.join dir name, List.mem_map_of_mem hdir, hruns⟩

theorem inTree?_isSome_of_within (h : r.Within r')
    (hfound : ((s.reaching r).inTree? files root name).isSome = true) :
    ((s.reaching r').inTree? files root name).isSome = true := by
  obtain ⟨dir, hdir, hruns⟩ := inTree?_isSome_iff.mp hfound
  exact inTree?_isSome_iff.mpr ⟨dir, FileTree.mem_directories_of_within h hdir, hruns⟩

def FindsInTree (s : Search) (files : FileTree) (root : Path) (name : Text) (r : Reach) : Prop :=
  ∃ m, (s.reaching r).find? files root name = some m ∧ m.origin = .stagedTree

theorem findsInTree_iff :
    s.FindsInTree files root name r ↔ s.inBinDirs? files root name = none ∧
      ((s.reaching r).inTree? files root name).isSome = true := by
  unfold FindsInTree
  rw [find?_reaching]
  cases s.inBinDirs? files root name with
  | some path => simp
  | none =>
    cases (s.reaching r).inTree? files root name with
    | some path => simp
    | none => cases s.host.find? name <;> simp

theorem findsInTree_of_within (h : r.Within r') (hfinds : s.FindsInTree files root name r) :
    s.FindsInTree files root name r' := by
  rw [findsInTree_iff] at hfinds ⊢
  exact ⟨hfinds.1, inTree?_isSome_of_within h hfinds.2⟩

/-- Two reaches that find nothing in the tree find the same elsewhere. -/
theorem find?_eq_of_not_findsInTree (h : ¬ s.FindsInTree files root name r)
    (h' : ¬ s.FindsInTree files root name r') :
    (s.reaching r).find? files root name = (s.reaching r').find? files root name := by
  rw [findsInTree_iff] at h h'
  rw [find?_reaching, find?_reaching]
  cases hbin : s.inBinDirs? files root name with
  | some path => rfl
  | none =>
    have hnone : (s.reaching r).inTree? files root name = none := by simpa [hbin] using h
    have hnone' : (s.reaching r').inTree? files root name = none := by simpa [hbin] using h'
    rw [hnone, hnone']

theorem find?_of_isWithinDepth {d : Nat} (h : files.IsWithinDepth root d) :
    (s.reaching (.bounded d)).find? files root name =
      (s.reaching .full).find? files root name := by
  have htree : (s.reaching (.bounded d)).inTree? files root name =
      (s.reaching .full).inTree? files root name := by
    unfold inTree? reaching
    dsimp only
    rw [FileTree.directories_of_isWithinDepth h]
  rw [find?_reaching, find?_reaching, htree]

theorem not_findsInTree_disabled : ¬ s.FindsInTree files root name .disabled := by
  rw [findsInTree_iff, inTree?_isSome_iff, FileTree.directories_disabled]
  simp

/-- On its lowest level the tree has nothing but what the root holds under the very name. -/
theorem isExecutable_of_findsInTree (h : s.FindsInTree files root name (.bounded 0)) :
    files.isExecutable (Path.join root name) = true := by
  rw [findsInTree_iff, inTree?_isSome_iff] at h
  obtain ⟨_, dir, hdir, hruns⟩ := h
  rwa [FileTree.eq_root_of_mem_directories hdir] at hruns

end Search

namespace Stage
open RuntimeForm (ofDeclared)

variable {s : Stage} {files : FileTree}

def reaching (s : Stage) (r : Reach) : Stage := { s with search := s.search.reaching r }

theorem resolve_reaching (s : Stage) (files : FileTree) (word : Text) (r : Reach) :
    (s.reaching r).resolve files word =
      if files.holds (Path.join s.root (s.relative word)) then .literal (s.relative word)
      else
        match (s.search.reaching r).find? files s.root (s.relative word) with
        | none => .missing
        | some found => .searched (s.fromRoot found.path).text found := rfl

theorem resolve_bounded_zero (s : Stage) (files : FileTree) (word : Text) :
    (s.reaching (.bounded 0)).resolve files word = (s.reaching .disabled).resolve files word := by
  rw [resolve_reaching, resolve_reaching]
  split
  · rfl
  · -- The one candidate of the lowest level is the path that was just found missing.
    rename_i hholds
    have hzero : ¬ s.search.FindsInTree files s.root (s.relative word) (.bounded 0) := by
      intro hfinds
      apply hholds
      exact FileTree.holds_of_isExecutable (Search.isExecutable_of_findsInTree hfinds)
    rw [Search.find?_eq_of_not_findsInTree hzero Search.not_findsInTree_disabled]

/-- How the results of searches with different reaches are related. -/
structure ReachLaws (s : Stage) (files : FileTree) : Prop where
  /-- Where the whole tree has nothing to offer, the reach makes no difference. -/
  outside (name : Text) : ¬ s.search.FindsInTree files s.root name .full → ∀ r,
    (s.search.reaching r).find? files s.root name =
      (s.search.reaching .full).find? files s.root name
  wider (name : Text) (d : Nat) : s.search.FindsInTree files s.root name (.bounded d) →
    s.search.FindsInTree files s.root name .full ∧
      ∀ d', d ≤ d' → s.search.FindsInTree files s.root name (.bounded d')
  deepest (d : Nat) : files.IsWithinDepth s.root d → ∀ name,
    (s.search.reaching (.bounded d)).find? files s.root name =
      (s.search.reaching .full).find? files s.root name
  resolves (word : Text) : (s.reaching (.bounded 0)).resolve files word =
    (s.reaching .disabled).resolve files word
  forms (declared : Text) : ofDeclared (s.reaching (.bounded 0)) files declared =
    ofDeclared (s.reaching .disabled) files declared

theorem reachLaws (s : Stage) (files : FileTree) : s.ReachLaws files := by
  constructor
  · intro name hnot r
    apply Search.find?_eq_of_not_findsInTree _ hnot
    intro hfinds
    exact hnot (Search.findsInTree_of_within r.within_full hfinds)
  · intro name d hfinds
    constructor
    · exact Search.findsInTree_of_within (Reach.within_full _) hfinds
    · intro d' hle
      exact Search.findsInTree_of_within (Reach.bounded_within hle) hfinds
  · intro d hdepth name
    exact Search.find?_of_isWithinDepth hdepth
  · exact s.resolve_bounded_zero files
  · intro declared
    exact RuntimeForm.ofDeclared_congr (s.resolve_bounded_zero files) fun _ => rfl

/-- A wider reach comes to the tool in `a/b` first, a narrow one to that in `c`. -/
example :
    ((FileTree.empty.addFile (Text.of "/stage/a/b/tool") ⟨[], 0o755⟩).bind
      (·.addFile (Text.of "/stage/c/tool") ⟨[], 0o755⟩)).map (fun files =>
        [Reach.bounded 1, .full].map fun r =>
          (Search.mk [] r (.named .empty)).find? files (Text.of "/stage") (Text.of "tool")) =
      .ok [some ⟨Text.of "tool", Text.of "/stage/c/tool", .stagedTree⟩,
        some ⟨Text.of "tool", Text.of "/stage/a/b/tool", .stagedTree⟩] := by rfl

end Stage
end EntryPoints
