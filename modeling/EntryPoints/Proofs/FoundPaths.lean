import EntryPoints.Proofs.JoinedPaths
import EntryPoints.Proofs.SearchedScripts

/-!
Paths that a search finds. Where the root is absolute and the known directories do not climb out of
it, what is found for a name that does not climb has a path from the root that does not climb
either (`climbs_of_resolve`). So a word that climbs was written so.
-/
namespace EntryPoints

namespace Path

theorem climbs_eq_false_iff {p : Path} :
    climbs p = false ↔ [dot, dot] ∉ (pieces p).filter isTelling := by
  have htelling : isTelling [dot, dot] = true := by decide
  rw [climbs, ← Bool.not_eq_true, List.contains_iff_mem, List.mem_filter, and_iff_left htelling]

theorem climbs_dropStart {front t : Text} (h : climbs t = false) :
    climbs (Text.dropStart (front ++ ['/']) t) = false := by
  by_cases hstart : front ++ ['/'] <+: t
  · obtain ⟨rest, rfl⟩ := hstart
    have hpieces : pieces (front ++ ['/'] ++ rest : Text) = pieces front ++ pieces rest := by
      rw [List.append_assoc, pieces_of, pieces_of, pieces_of, ← List.map_append]
      exact congrArg (List.map of) (Text.cut_append '/' front rest)
    rw [Text.dropStart_append]
    rw [climbs, hpieces, List.contains_append, Bool.or_eq_false_iff] at h
    exact h.2
  · rwa [Text.dropStart_eq_self hstart]

theorem telling_ofPieces {names : List Path} (h : ∀ name ∈ names, isName name = true) :
    isAbsolute (ofPieces names) = false ∧ (pieces (ofPieces names)).filter isTelling = names := by
  have hnames : ∀ name ∈ names, isTelling name = true ∧ slash ∉ name := by
    intro name hname
    have htold := h name hname
    simp [isName] at htold
    simp [isTelling, htold]
  cases names with
  | nil => exact ⟨rfl, by decide⟩
  | cons first rest =>
    have hpieces : pieces (ofPieces (first :: rest)) = first :: rest :=
      Text.cut_join (fun name hname => (hnames name hname).2) (List.cons_ne_nil first rest)
    refine ⟨?_, ?_⟩
    · obtain ⟨htelling, hslash⟩ := hnames first List.mem_cons_self
      cases first with
      | nil => cases htelling
      | cons c first =>
        have hc : slash ≠ c := List.ne_of_not_mem_cons hslash
        cases rest <;> simpa [isAbsolute, ofPieces, Text.join] using hc.symm
    · rw [hpieces, List.filter_eq_self]
      exact fun name hname => (hnames name hname).1

end Path

/-- What is looked up from the staged root is looked up in it: the root is absolute, its known
directories stay in it as they are written, and the host tells paths from the top. -/
structure Stage.IsGrounded (s : Stage) : Prop where
  root : Path.isAbsolute s.root = true
  binDirs : ∀ dir ∈ s.search.binDirs, Path.isAbsolute dir = false ∧ Path.climbs dir = false
  host : ∀ name path, s.search.host.find? name = some path →
    Path.isAbsolute path = true ∧ Path.climbs path = false

namespace Settings

variable {settings : Settings} {files : FileTree} {root : Path} {host : Host}

theorem binDirs_of_fault? (h : settings.fault? = none) {dir : Path}
    (hdir : dir ∈ (settings.stage files root host).search.binDirs) :
    Path.isAbsolute dir = false ∧ Path.climbs dir = false := by
  obtain ⟨declared, hdeclared, rfl⟩ := List.mem_map.mp (List.mem_filter.mp hdir).1
  have hfit : isFitBinDir declared = true := by
    unfold fault? at h
    split at h
    · cases h
    · split at h
      · cases h
      · simpa using List.find?_eq_none.mp (Option.map_eq_none_iff.mp h) declared hdeclared
  simp only [isFitBinDir, Bool.and_eq_true, Bool.not_eq_true'] at hfit
  exact ⟨hfit.1.2, hfit.2⟩

theorem isGrounded_stage (h : settings.fault? = none) (hroot : Path.isAbsolute root = true)
    (hhost : ∀ name path, host.find? name = some path →
      Path.isAbsolute path = true ∧ Path.climbs path = false) :
    (settings.stage files root host).IsGrounded :=
  ⟨hroot, fun _ hdir => binDirs_of_fault? h hdir, hhost⟩

end Settings

theorem FileTree.telling_of_mem_directories {files : FileTree} {root : Path} {reach : Reach}
    {dir : Path} (h : dir ∈ files.directories root reach) :
    ∃ names, (∀ name ∈ names, isName name = true) ∧
      (Path.pieces dir).filter Path.isTelling =
        (Path.pieces root).filter Path.isTelling ++ names := by
  rcases mem_directories h with rfl | ⟨names, hnames, rfl⟩
  · exact ⟨[], by simp, by simp⟩
  · obtain ⟨hrelative, htelling⟩ := Path.telling_ofPieces hnames
    exact ⟨names, hnames, by rw [Path.telling_join root hrelative, htelling]⟩

namespace Stage

variable {s : Stage} {files : FileTree} {word name path : Text} {m : Match}

theorem climbs_relative (h : Path.climbs word = false) :
    Path.climbs (s.relative word) = false := by
  have hslash : Path.climbs (Text.dropStart ([] ++ ['/']) word) = false := Path.climbs_dropStart h
  exact Path.climbs_dropStart hslash

/-- An absolute name names a file in the root if any, so there is nothing to search for. -/
theorem isAbsolute_of_searched (h : s.resolve files word = .searched path m)
    (horigin : m.origin ≠ .host) : Path.isAbsolute (s.relative word) = false := by
  cases habsolute : Path.isAbsolute (s.relative word) with
  | false => rfl
  | true =>
    have hjoin : ∀ base, Path.join base (s.relative word) = s.relative word := fun base => by
      rw [Path.join, if_pos habsolute]
    obtain ⟨hfind, _⟩ := find?_of_searched h
    have hpath : m.path = s.relative word := by
      rcases Search.path_of_find? hfind horigin with ⟨dir, _, hpath⟩ | ⟨dir, _, hpath⟩
      · rw [hpath, hjoin]
      · rw [hpath, hjoin]
    have hexecutable := Search.isExecutable_of_find? hfind horigin
    rw [hpath, ← hjoin s.root] at hexecutable
    rw [RuntimeForm.resolve_of_holds (FileTree.holds_of_isExecutable hexecutable)] at h
    cases h

/-- What is found in a staged root lies below it by pieces that do not climb, if neither the known
directories nor the name that is looked for do. -/
theorem telling_found
    (hdirs : ∀ dir ∈ s.search.binDirs, Path.isAbsolute dir = false ∧ Path.climbs dir = false)
    (hrelative : Path.isAbsolute name = false)
    (hclimbs : Path.climbs name = false) (h : s.search.find? files s.root name = some m)
    (horigin : m.origin ≠ .host) :
    ∃ rest, (Path.pieces m.path).filter Path.isTelling =
      (Path.pieces s.root).filter Path.isTelling ++ rest ∧ [Path.dot, Path.dot] ∉ rest := by
  rw [Path.climbs_eq_false_iff] at hclimbs
  rcases Search.path_of_find? h horigin with ⟨dir, hdir, hpath⟩ | ⟨dir, hdir, hpath⟩
  · obtain ⟨hdirRelative, hdirClimbs⟩ := hdirs dir hdir
    rw [Path.climbs_eq_false_iff] at hdirClimbs
    refine ⟨_, ?_, not_or.mpr ⟨hdirClimbs, hclimbs⟩ ∘ List.mem_append.mp⟩
    rw [hpath, Path.telling_join _ hrelative, Path.telling_join _ hdirRelative, List.append_assoc]
  · obtain ⟨names, hnames, htelling⟩ := FileTree.telling_of_mem_directories hdir
    have hdots : [Path.dot, Path.dot] ∉ names := by
      intro hmem
      have hname := hnames _ hmem
      revert hname
      decide
    refine ⟨_, ?_, not_or.mpr ⟨hdots, hclimbs⟩ ∘ List.mem_append.mp⟩
    rw [hpath, Path.telling_join _ hrelative, htelling, List.append_assoc]

/-- What a search finds for a name that does not climb is at an absolute path, and the rest of
that path below the root does not climb. -/
theorem climbs_found (hgrounded : s.IsGrounded)
    (hclimbs : Path.climbs (s.relative word) = false)
    (h : s.resolve files word = .searched path m) :
    Path.isAbsolute m.path = true ∧
      ∀ rest, Path.below? s.root m.path = some rest → Path.climbs rest = false := by
  obtain ⟨hfind, _⟩ := find?_of_searched h
  by_cases horigin : m.origin = .host
  · obtain ⟨habsolute, hplain⟩ := hgrounded.host _ _ (Search.host_of_find? hfind horigin)
    refine ⟨habsolute, fun rest hrest => ?_⟩
    rw [Path.climbs_eq_false_iff, Path.telling_below hrest] at hplain
    exact Path.climbs_eq_false_iff.mpr fun hdots => hplain (List.mem_append_right _ hdots)
  · refine ⟨Search.isAbsolute_of_find? hfind horigin hgrounded.root, fun rest hrest => ?_⟩
    obtain ⟨tail, htail, hdots⟩ := telling_found hgrounded.binDirs
      (isAbsolute_of_searched h horigin) hclimbs hfind horigin
    rw [Path.telling_below hrest] at htail
    rw [Path.climbs_eq_false_iff, List.append_cancel_left htail]
    exact hdots

theorem climbs_of_resolve (hgrounded : s.IsGrounded) (hclimbs : Path.climbs word = false)
    (h : (s.resolve files word).path? = some path) (hrelative : Path.isAbsolute path = false) :
    Path.climbs path = false := by
  cases hresolve : s.resolve files word with
  | missing =>
    rw [hresolve] at h
    cases h
  | literal found =>
    rw [hresolve] at h
    cases h
    rw [RuntimeForm.eq_relative_of_literal hresolve]
    exact climbs_relative hclimbs
  | searched found m =>
    rw [hresolve] at h
    cases h
    obtain ⟨habsolute, hbelow⟩ := climbs_found hgrounded (climbs_relative hclimbs) hresolve
    rw [(find?_of_searched hresolve).2, Path.isAbsolute_of_text] at hrelative
    rw [(find?_of_searched hresolve).2, Path.climbs_of_text]
    exact hbelow _ (below?_fromRoot habsolute hrelative)

end Stage
end EntryPoints
