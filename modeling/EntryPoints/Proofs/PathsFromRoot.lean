import EntryPoints.Proofs.FoundCommands

/-!
Paths as they are seen from a staged root. What a search finds there is named from the root exactly
if its components begin with those of the root, and the name leads back to the file that was found,
unless its path is no text (`Stage.resolves_faithfully`). Under valid settings such a name is
relative and does not climb (`Settings.resolve_stays_within`).
-/
namespace EntryPoints

namespace Path

variable {base p : Path}

/-- What a path begins with apart from its names: the top of the tree, or the dot of its own. -/
def start (p : Path) : List Path :=
  if isAbsolute p then [[slash]] else if startsHere p then [[dot]] else []

/-- The parts by which paths are compared. -/
def components (p : Path) : List Path := start p ++ (pieces p).filter isTelling

/-- The component is not a name. -/
def isMark (component : Path) : Bool := component = [slash] || component = [dot]

theorem isMark_of_mem_telling {piece : Path} (h : piece ∈ (pieces p).filter isTelling) :
    isMark piece = false := by
  obtain ⟨hpiece, htelling⟩ := List.mem_filter.mp h
  have hslash : slash ∉ piece := Text.not_mem_of_mem_cut hpiece
  have hdot : piece ≠ [dot] := by
    rintro rfl
    cases htelling
  have htop : piece ≠ [slash] := by
    rintro rfl
    exact hslash (List.mem_singleton_self slash)
  simp [isMark, htop, hdot]

theorem start_eq_filter_head (p : Path) :
    start p = ((components p).head?.toList).filter isMark := by
  by_cases habsolute : isAbsolute p = true
  · simp [components, start, habsolute, isMark]
  · by_cases hhere : startsHere p = true
    · simp [components, start, habsolute, hhere, isMark]
    · have hstart : start p = [] := by simp [start, habsolute, hhere]
      rw [components, hstart, List.nil_append, eq_comm, List.filter_eq_nil_iff]
      intro piece hpiece
      have hmem := List.mem_of_mem_head? (Option.mem_toList.mp hpiece)
      simp [isMark_of_mem_telling hmem]

theorem startsHere_of_isAbsolute (h : isAbsolute p = true) : startsHere p = false := by
  cases p with
  | nil => rfl
  | cons c tail =>
    obtain rfl : c = slash := by simpa [isAbsolute] using h
    simp [startsHere, pieces, Text.cut]

theorem start_eq_start_iff :
    start base = start p ↔ isAbsolute base = isAbsolute p ∧ startsHere base = startsHere p := by
  have hmarks : slash ≠ dot := by decide
  by_cases hbase : isAbsolute base = true
  · by_cases hp : isAbsolute p = true
    · simp [start, hbase, hp, startsHere_of_isAbsolute]
    · by_cases hhere : startsHere p = true <;> simp [start, hbase, hp, hhere, hmarks]
  · by_cases hp : isAbsolute p = true
    · by_cases hhere : startsHere base = true <;> simp [start, hbase, hp, hhere, hmarks.symm]
    · by_cases hhere : startsHere base = true <;> by_cases hhere' : startsHere p = true <;>
        simp [start, hbase, hp, hhere, hhere']

/-- Only the empty path has no component: a first piece without a name is the start of its path. -/
theorem components_ne_nil (h : p ≠ []) : components p ≠ [] := by
  intro hnone
  obtain ⟨hstart, htelling⟩ := List.append_eq_nil_iff.mp hnone
  obtain ⟨first, others, hpieces⟩ : ∃ first others, pieces p = first :: others :=
    List.exists_cons_of_ne_nil (Text.cut_ne_nil slash p)
  have hfirst : isTelling first ≠ true :=
    List.filter_eq_nil_iff.mp htelling first (by simp [hpieces])
  obtain ⟨habsolute, hhere⟩ : isAbsolute p = false ∧ startsHere p = false := by
    unfold start at hstart
    split at hstart
    · cases hstart
    · split at hstart
      · cases hstart
      · rename_i habsolute hhere
        exact ⟨by simpa using habsolute, by simpa using hhere⟩
  by_cases hempty : first = []
  · have hp := ofPieces_pieces p
    rw [hpieces, hempty] at hp
    cases others with
    | nil => exact h hp.symm
    | cons next others =>
      rw [← hp] at habsolute
      cases habsolute
  · have hdot : first ≠ [dot] := by
      rintro rfl
      simp [startsHere, hpieces] at hhere
    simp [isTelling, hempty, hdot] at hfirst

theorem components_prefix_iff (hbase : base ≠ []) :
    components base <+: components p ↔
      start base = start p ∧
        (pieces base).filter isTelling <+: (pieces p).filter isTelling := by
  constructor
  · intro h
    have hstart : start base = start p := by
      obtain ⟨first, rest, hfirst⟩ := List.exists_cons_of_ne_nil (components_ne_nil hbase)
      obtain ⟨more, hmore⟩ := h
      rw [start_eq_filter_head, start_eq_filter_head, ← hmore, hfirst]
      rfl
    rw [components, components, hstart, List.prefix_append_right_inj] at h
    exact ⟨hstart, h⟩
  · rintro ⟨hstart, htelling⟩
    rw [components, components, hstart, List.prefix_append_right_inj]
    exact htelling

theorem exists_piecesBelow?_iff {front ps : List Path} :
    (∃ rest, piecesBelow? (front.filter isTelling) ps = some rest) ↔
      front.filter isTelling <+: ps.filter isTelling := by
  constructor
  · rintro ⟨rest, hrest⟩
    exact ⟨_, (piecesBelow?_eq_some hrest).1.symm⟩
  · rintro ⟨kept, hkept⟩
    obtain ⟨before, after, rfl, hbefore, _⟩ := List.filter_eq_append_iff.mp hkept.symm
    exact ⟨_, by rw [← hbefore, piecesBelow?_append]⟩

/-- A path leads through a base exactly if its components begin with those of the base. The empty
base has no components. -/
theorem exists_below?_iff :
    (∃ rest, below? base p = some rest) ↔ components base <+: components p := by
  by_cases hbase : base = []
  · subst hbase
    exact iff_of_true ⟨_, by rw [below?, if_pos rfl]⟩ List.nil_prefix
  · rw [components_prefix_iff hbase, start_eq_start_iff, ← exists_piecesBelow?_iff]
    by_cases hstart : isAbsolute base = isAbsolute p ∧ startsHere base = startsHere p
    · simp [below?, hbase, hstart]
    · simp [below?, hbase, hstart]

theorem telling_slashes (n : Nat) (p : Path) :
    (pieces (List.replicate n slash ++ p)).filter isTelling = (pieces p).filter isTelling := by
  induction n with
  | zero => rfl
  | succ n ih =>
    have hpieces : pieces (slash :: (List.replicate n slash ++ p)) =
        [] :: pieces (List.replicate n slash ++ p) := by simp [pieces, Text.cut]
    have hidle : ¬ isTelling [] = true := by decide
    rw [List.replicate_succ, List.cons_append, hpieces, List.filter_cons_of_neg hidle, ih]

theorem below?_slashes (n : Nat) (base p : Path) :
    below? (List.replicate (n + 1) slash ++ base) p = below? (slash :: base) p := by
  have habsolute : ∀ tail, isAbsolute (slash :: tail) = true := fun _ => rfl
  have htelling := telling_slashes (n + 1) base
  rw [← telling_slashes 1 base] at htelling
  rw [List.replicate_succ, List.cons_append] at htelling ⊢
  unfold below?
  rw [if_neg (List.cons_ne_nil _ _), if_neg (List.cons_ne_nil _ _), habsolute, habsolute,
    startsHere_of_isAbsolute (habsolute _), startsHere_of_isAbsolute (habsolute _), htelling]
  rfl

end Path

namespace Stage

variable {s : Stage} {files : FileTree} {word path : Text} {m : Match}

/-- A tree can be asked for the path as it is seen from the root. An absolute path is not seen from
there. -/
def IsAskable (s : Stage) (p : Path) : Prop :=
  Path.isAbsolute p = true ∨ p ≠ [] ∧ (Path.join s.root p).length < pathLimit

/-- An absolute path from the root is the one that was found, for it does not lead through a root
that has a name. -/
theorem fromRoot_of_isAbsolute {p : Path} (hexecutable : files.isExecutable p = true)
    (habsolute : Path.isAbsolute (s.fromRoot p) = true) : s.fromRoot p = p := by
  by_cases hroot : s.root = []
  · exact fromRoot_of_root_nil hroot hexecutable
  · cases hbelow : Path.below? s.root p with
    | some rest =>
      rw [fromRoot, hbelow, Option.getD_some, Path.isAbsolute_of_below? hroot hbelow] at habsolute
      cases habsolute
    | none => rw [fromRoot, hbelow, Option.getD_none]

/-- With relative known directories, what is found lies below the root by the pieces of its path
from there. -/
theorem seen_from_root (h : s.resolve files word = .searched path m) (horigin : m.origin ≠ .host)
    (hdirs : ∀ dir ∈ s.search.binDirs, Path.isAbsolute dir = false) :
    Path.isAbsolute (s.fromRoot m.path) = false ∧
      (Path.pieces m.path).filter Path.isTelling =
        (Path.pieces s.root).filter Path.isTelling ++
          (Path.pieces (s.fromRoot m.path)).filter Path.isTelling := by
  have hbelow := below?_found h horigin (.inl hdirs)
  refine ⟨?_, Path.telling_below hbelow⟩
  by_cases hroot : s.root = []
  · obtain ⟨hfind, _⟩ := find?_of_searched h
    obtain ⟨tail, htail, hjoin⟩ :=
      Search.exists_tail hfind horigin (isAbsolute_of_searched h horigin) (.inl hdirs)
    rw [fromRoot_of_root_nil hroot (Search.isExecutable_of_find? hfind horigin), hjoin, hroot]
    exact Path.isAbsolute_join_relative rfl htail
  · exact Path.isAbsolute_of_below? hroot hbelow

theorem target_found_of_isAskable (h : s.resolve files word = .searched path m)
    (horigin : m.origin ≠ .host) (haskable : s.IsAskable (s.fromRoot m.path)) {place : Location}
    (htarget : files.target .reach m.path = .ok (.node place)) :
    files.target .reach (Path.join s.root (s.fromRoot m.path)) = .ok (.node place) := by
  cases habsolute : Path.isAbsolute (s.fromRoot m.path) with
  | true =>
    have hexecutable := Search.isExecutable_of_find? (find?_of_searched h).1 horigin
    rw [Path.join, if_pos habsolute, fromRoot_of_isAbsolute hexecutable habsolute]
    exact htarget
  | false =>
    obtain ⟨hne, hshort⟩ := haskable.resolve_left (by simp [habsolute])
    exact target_found h horigin hne habsolute hshort htarget

theorem isAskable_of_isExecutable {p : Path}
    (h : files.isExecutable (Path.join s.root p) = true) : s.IsAskable p := by
  cases habsolute : Path.isAbsolute p with
  | true => exact .inl habsolute
  | false =>
    refine .inr ⟨?_, (FileTree.fit_of_isExecutable h).2⟩
    rintro rfl
    exact FileTree.telling_of_isExecutable habsolute h (by decide)

theorem relative_iff_below (h : s.resolve files word = .searched path m)
    (horigin : m.origin ≠ .host)
    (hroot : s.root ≠ [] ∨ ∀ dir ∈ s.search.binDirs, Path.isAbsolute dir = false) :
    Path.isAbsolute (s.fromRoot m.path) = false ↔
      Path.components s.root <+: Path.components m.path := by
  rw [← Path.exists_below?_iff]
  by_cases hempty : s.root = []
  · have hdirs := hroot.resolve_left (not_not.mpr hempty)
    exact iff_of_true (seen_from_root h horigin hdirs).1 ⟨_, below?_found h horigin (.inl hdirs)⟩
  · constructor
    · intro hrelative
      exact ⟨_, below?_found h horigin (.inr hrelative)⟩
    · rintro ⟨rest, hrest⟩
      rw [fromRoot, hrest, Option.getD_some]
      exact Path.isAbsolute_of_below? hempty hrest

/-- A search in the staged root led to this path, which tells the one from the root. It is relative
where that one is. If nothing of it was lost, it leads, seen from the root, to the very file that
was found wherever a tree can be asked for it, as it always can with relative known directories. -/
structure SeesFound (s : Stage) (files : FileTree) (word path : Text) (m : Match) : Prop where
  found : s.search.find? files s.root (s.relative word) = some m
  told : path = (s.fromRoot m.path).text
  relative : s.root ≠ [] ∨ (∀ dir ∈ s.search.binDirs, Path.isAbsolute dir = false) →
    (Path.isAbsolute path = false ↔ Path.components s.root <+: Path.components m.path)
  askable : (s.fromRoot m.path).IsText →
    (∀ dir ∈ s.search.binDirs, Path.isAbsolute dir = false) → s.IsAskable path
  executable : (s.fromRoot m.path).IsText →
    (files.isExecutable (Path.join s.root path) = true ↔ s.IsAskable path)
  same : (s.fromRoot m.path).IsText → s.IsAskable path →
    ∃ place f, files.locate m.path = .ok place ∧
      files.locate (Path.join s.root path) = .ok place ∧ files.node? place = some (.file f) ∧
      f.isExecutable = true

theorem seesFound_of_searched (h : s.resolve files word = .searched path m)
    (horigin : m.origin ≠ .host) : s.SeesFound files word path m := by
  obtain ⟨hfind, hpath⟩ := find?_of_searched h
  obtain ⟨place, f, htarget, hnode, hfile⟩ :=
    FileTree.file_of_isExecutable (Search.isExecutable_of_find? hfind horigin)
  have hseen (hwhole : (s.fromRoot m.path).IsText) : Path.of path = s.fromRoot m.path := by
    rw [hpath, hwhole]
  have hsame (haskable : s.IsAskable (s.fromRoot m.path)) :
      files.target .reach (Path.join s.root (s.fromRoot m.path)) = .ok (.node place) :=
    target_found_of_isAskable h horigin haskable htarget
  refine ⟨hfind, hpath, ?_, ?_, ?_, ?_⟩
  · intro hroot
    rw [hpath, Path.isAbsolute_of_text]
    exact relative_iff_below h horigin hroot
  · intro hwhole hdirs
    rw [hseen hwhole]
    exact .inr (fit_of_searched h horigin hdirs)
  · intro hwhole
    refine ⟨isAskable_of_isExecutable, ?_⟩
    rw [hseen hwhole]
    intro haskable
    exact FileTree.isExecutable_of_target (hsame haskable) hnode hfile
  · intro hwhole
    rw [hseen hwhole]
    intro haskable
    refine ⟨place, f, ?_, ?_, hnode, hfile⟩
    · simp [FileTree.locate, htarget, Except.bind, Target.place]
    · simp [FileTree.locate, hsame haskable, Except.bind, Target.place]

/-- The path that a word resolves to leads to what was found, and resolves to itself where it is
spelt from the root. -/
structure ResolvesFaithfully (s : Stage) (files : FileTree) (word : Text) : Prop where
  searched : ∀ path m, s.resolve files word = .searched path m → m.origin ≠ .host →
    s.SeesFound files word path m
  stable : ∀ path, (s.resolve files word = .literal path ∨
      s.IsAskable path ∧ ∃ m, s.resolve files word = .searched path m ∧ m.origin ≠ .host ∧
        (s.fromRoot m.path).IsText) →
    Path.isAbsolute path = false → ¬ s.anchor <+: path → s.resolve files path = .literal path

theorem resolves_faithfully (s : Stage) (files : FileTree) (word : Text) :
    s.ResolvesFaithfully files word := by
  constructor
  · intro path m h horigin
    exact seesFound_of_searched h horigin
  · intro path h hrelative hplain
    have hself : s.relative path = path := relative_eq_self_iff.mpr ⟨hrelative, hplain⟩
    have hthere : files.holds (Path.join s.root path) = true := by
      rcases h with hliteral | ⟨haskable, m, hsearched, horigin, hwhole⟩
      · exact RuntimeForm.holds_of_literal hliteral
      · -- Where a tree can be asked for it, the path leads to the executable that was found.
        have hsees := seesFound_of_searched hsearched horigin
        exact FileTree.holds_of_isExecutable ((hsees.executable hwhole).mpr haskable)
    rw [← hself] at hthere
    rw [RuntimeForm.resolve_of_holds hthere, hself]

/-- A stage whose root is the empty path, which knows a directory by its absolute path. -/
def rootlessStage : Stage :=
  ⟨[], Text.of "$SNAP", ⟨[Text.of "/stage/bin"], .full, .named (.ofList [])⟩⟩

/-- A tool in a directory whose name is one byte that spells no character. -/
def unspelledTool : Path := Path.of (Text.of "/stage/") ++ 0xff :: Path.of (Text.of "/tool")

def unspelledTree : FileTree :=
  (FileTree.empty.addFile unspelledTool ⟨[], 0o755⟩).toOption.getD .empty

def unspelledStage : Stage :=
  ({} : Settings).stage unspelledTree (Text.of "/stage") (.named .empty)

theorem length_longRoot {p : Path} (h : Path.isAbsolute p = false) :
    pathLimit ≤ (Path.join EntryPoint.longRootStage.root p).length := by
  rw [Path.join_eq_seam _ h]
  simp [EntryPoint.longRootStage]

theorem resolve_longRoot :
    EntryPoint.longRootStage.resolve RuntimeForm.scriptTree (Text.of "run") =
      .searched (Text.of "bin/run")
        ⟨Text.of "run", Text.of "/stage/bin/run", .binaryDirectory⟩ := by
  have hname : EntryPoint.longRootStage.relative (Text.of "run") = Text.of "run" := by decide
  have hnone : RuntimeForm.scriptTree.holds
      (Path.join EntryPoint.longRootStage.root (Text.of "run")) = false :=
    FileTree.holds_of_long (length_longRoot (by decide))
  have hfind : EntryPoint.longRootStage.search.find? RuntimeForm.scriptTree
      EntryPoint.longRootStage.root (Text.of "run") =
        some ⟨Text.of "run", Text.of "/stage/bin/run", .binaryDirectory⟩ := by rfl
  have hbelow : Path.below? EntryPoint.longRootStage.root (Text.of "/stage/bin/run") =
      some (Path.of (Text.of "bin/run")) :=
    (Path.below?_slashes 4095 (Text.of "stage") (Text.of "/stage/bin/run")).trans (by decide)
  simp [resolve, hname, hnone, hfind, fromRoot, hbelow, Path.text_of]

/-- An absolute known directory may hold the root itself, which leaves no path from there, or a
file that the root is spelt too long to lead to. Every path leads through the empty root, also an
absolute one. And of a name that is no text the path loses what would lead to it. -/
theorem found_paths_are_lost :
    (EntryPoint.fileRootStage.resolve EntryPoint.fileRootTree (Text.of "stage") =
        .searched [] ⟨Text.of "stage", Text.of "/stage", .binaryDirectory⟩ ∧
      EntryPoint.fileRootTree.isExecutable (Path.join EntryPoint.fileRootStage.root []) = false ∧
      (Path.isAbsolute [] = false ∧ ¬ EntryPoint.fileRootStage.anchor <+: []) ∧
      EntryPoint.fileRootStage.resolve EntryPoint.fileRootTree [] = .missing) ∧
    (EntryPoint.longRootStage.resolve RuntimeForm.scriptTree (Text.of "run") =
        .searched (Text.of "bin/run")
          ⟨Text.of "run", Text.of "/stage/bin/run", .binaryDirectory⟩ ∧
      RuntimeForm.scriptTree.isExecutable
        (Path.join EntryPoint.longRootStage.root (Text.of "bin/run")) = false) ∧
    (rootlessStage.resolve RuntimeForm.scriptTree (Text.of "run") =
        .searched (Text.of "/stage/bin/run")
          ⟨Text.of "run", Text.of "/stage/bin/run", .binaryDirectory⟩ ∧
      Path.isAbsolute (Text.of "/stage/bin/run") = true ∧
      Path.components rootlessStage.root <+: Path.components (Text.of "/stage/bin/run")) ∧
    unspelledStage.resolve unspelledTree (Text.of "tool") =
        .searched (Text.of "\uFFFD/tool") ⟨Text.of "tool", unspelledTool, .stagedTree⟩ ∧
      unspelledTree.isExecutable
        (Path.join unspelledStage.root (Text.of "\uFFFD/tool")) = false ∧
      (Path.isAbsolute (Text.of "\uFFFD/tool") = false ∧
        ¬ unspelledStage.anchor <+: Text.of "\uFFFD/tool") ∧
      unspelledStage.resolve unspelledTree (Text.of "\uFFFD/tool") = .missing := by
  have hlong : RuntimeForm.scriptTree.isExecutable
      (Path.join EntryPoint.longRootStage.root (Text.of "bin/run")) = false := by
    by_contra hexecutable
    have hshort := (FileTree.fit_of_isExecutable (by simpa using hexecutable)).2
    have hlength := length_longRoot (p := Text.of "bin/run") (by decide)
    omega
  exact ⟨⟨by rfl, by rfl, ⟨by decide, by decide⟩, by rfl⟩, ⟨resolve_longRoot, hlong⟩,
    ⟨by rfl, by decide, by decide⟩, by rfl, by rfl, ⟨by decide, by decide⟩, by rfl⟩

end Stage

namespace Settings

variable {settings : Settings}

/-- Under valid settings a word that is spelt from the root and does not climb names nothing outside
of it, unless the host knows it. -/
theorem resolve_stays_within (h : settings.fault? = none) (built files : FileTree) (root : Path)
    (host : Host) (word : Text)
    (hrelative : Path.isAbsolute ((settings.stage built root host).relative word) = false)
    (hclimbs : Path.climbs ((settings.stage built root host).relative word) = false) :
    (∀ path, (settings.stage built root host).resolve files word = .literal path →
      Path.isAbsolute path = false ∧ Path.climbs path = false) ∧
    ∀ path m, (settings.stage built root host).resolve files word = .searched path m →
      m.origin ≠ .host → Path.isAbsolute path = false ∧ Path.climbs path = false := by
  constructor
  · intro path hliteral
    rw [RuntimeForm.eq_relative_of_literal hliteral]
    exact ⟨hrelative, hclimbs⟩
  · intro path m hsearched horigin
    have hdirs : ∀ dir ∈ (settings.stage built root host).search.binDirs,
        Path.isAbsolute dir = false ∧ Path.climbs dir = false := fun _ => binDirs_of_fault? h
    obtain ⟨hfind, _⟩ := Stage.find?_of_searched hsearched
    obtain ⟨rest, htelling, hdots⟩ :=
      Stage.telling_found hdirs hrelative hclimbs hfind horigin
    obtain ⟨hpath, hseen⟩ :=
      Stage.seen_from_root hsearched horigin fun dir hdir => (hdirs dir hdir).1
    rw [htelling, List.append_cancel_left_eq] at hseen
    rw [(Stage.find?_of_searched hsearched).2, Path.isAbsolute_of_text, Path.climbs_of_text]
    exact ⟨hpath, Path.climbs_eq_false_iff.mpr (hseen ▸ hdots)⟩

def dottedSettings : Settings := { binDirs := [Text.of "./bin/."] }

def dottedStage : Stage :=
  dottedSettings.stage RuntimeForm.scriptTree (Text.of "/stage") (.named (.ofList []))

theorem dottedStage_stays_within :
    dottedSettings.fault? = none ∧ Path.isAbsolute (dottedStage.relative (Text.of "run")) = false ∧
      Path.climbs (dottedStage.relative (Text.of "run")) = false ∧
      dottedStage.resolve RuntimeForm.scriptTree (Text.of "run") =
        .searched (Text.of "bin/./run")
          ⟨Text.of "run", Text.of "/stage/./bin/./run", .binaryDirectory⟩ ∧
      Path.isAbsolute (Text.of "bin/./run") = false ∧
      Path.climbs (Text.of "bin/./run") = false := by
  have hvalid : dottedSettings.fault? = none := by decide
  have hrelative : Path.isAbsolute (dottedStage.relative (Text.of "run")) = false := by decide
  have hclimbs : Path.climbs (dottedStage.relative (Text.of "run")) = false := by decide
  have hresolve : dottedStage.resolve RuntimeForm.scriptTree (Text.of "run") =
      .searched (Text.of "bin/./run")
        ⟨Text.of "run", Text.of "/stage/./bin/./run", .binaryDirectory⟩ := by rfl
  obtain ⟨_, hsearched⟩ := resolve_stays_within hvalid RuntimeForm.scriptTree RuntimeForm.scriptTree
    (Text.of "/stage") (.named (.ofList [])) (Text.of "run") hrelative hclimbs
  exact ⟨hvalid, hrelative, hclimbs, hresolve, hsearched _ _ hresolve (by decide)⟩

end Settings
end EntryPoints
