import EntryPoints.Proofs.DirectCommands
import EntryPoints.Proofs.JoinedPaths
import EntryPoints.Proofs.Verbatim

/-!
Commands that a search finds in the staged root. Such a command settles: with the path that was
found in place of its first word it is run as it stands, or goes behind a wrapper
(`settlesFound_of_isFound`). For the check before a run to see the file that the search saw, its
path has to lead there from the root, and with relative known directories it always does
(`fit_of_searched`).
-/
namespace EntryPoints

namespace FileTree

variable {files : FileTree}

theorem file_of_isExecutable {p : Path} (h : files.isExecutable p = true) :
    ∃ place f, files.target .reach p = .ok (.node place) ∧ files.node? place = some (.file f) ∧
      f.isExecutable = true := by
  rw [isExecutable] at h
  split at h
  · rename_i f hlookup
    obtain ⟨place, htarget, hnode⟩ := target_of_lookup hlookup
    exact ⟨place, f, htarget, hnode, h⟩
  · cases h

theorem isExecutable_of_target {p : Path} {place : Location} {f : File}
    (htarget : files.target .reach p = .ok (.node place))
    (hnode : files.node? place = some (.file f))
    (hf : f.isExecutable = true) : files.isExecutable p = true := by
  rw [isExecutable, lookup_of_target htarget hnode]
  exact hf

theorem fit_of_target {p : Path} {target : Target} (h : files.target .reach p = .ok target) :
    p ≠ [] ∧ p.length < pathLimit := by
  obtain ⟨_, hne, hshort, _⟩ := target_eq_ok_iff.mp h
  exact ⟨hne, hshort (by decide)⟩

theorem holds_of_long {p : Path} (h : pathLimit ≤ p.length) : files.holds p = false := by
  cases hlookup : files.lookup p with
  | error cause =>
    rw [holds, hlookup]
    rfl
  | ok node =>
    obtain ⟨place, htarget, _⟩ := target_of_lookup hlookup
    have hshort := (fit_of_target htarget).2
    omega

theorem fit_of_isExecutable {p : Path} (h : files.isExecutable p = true) :
    p ≠ [] ∧ p.length < pathLimit := by
  obtain ⟨_, _, htarget, _, _⟩ := file_of_isExecutable h
  exact fit_of_target htarget

/-- What lies under an executable's path as it is seen from elsewhere has a name of its own. -/
theorem telling_of_isExecutable {root tail : Path} (htail : Path.isAbsolute tail = false)
    (h : files.isExecutable (Path.join root tail) = true) :
    (Path.pieces tail).filter Path.isTelling ≠ [] := by
  obtain ⟨name, hlast⟩ := last_step_of_isExecutable h
  -- An empty path would leave the slash of the join at the end, which asks for a directory.
  have hne : tail ≠ [] := by
    rintro rfl
    by_cases hroot : root = []
    · subst hroot
      exact (fit_of_isExecutable h).1 rfl
    · rw [Path.last_step_join_nil hroot] at hlast
      cases hlast
  rw [Path.last_step_join root htail hne] at hlast
  exact Path.telling_ne_nil (List.mem_of_getLast? hlast)

theorem trimmed_of_isExecutable {p : Path} (h : files.isExecutable p = true) :
    Path.trimmed p = p := by
  obtain ⟨name, hlast⟩ := last_step_of_isExecutable h
  obtain ⟨piece, hpiece, htelling⟩ := Path.last_telling hlast
  exact Path.trimmed_eq_self hpiece htelling

end FileTree

namespace Search

variable {s : Search} {files : FileTree} {root : Path} {name : Text} {m : Match}

/-- What is found in the staged root is found at a path that is seen from there, unless it is found
in a known directory that is absolute. -/
theorem exists_tail (h : s.find? files root name = some m) (horigin : m.origin ≠ .host)
    (hname : Path.isAbsolute name = false)
    (hdirs : (∀ dir ∈ s.binDirs, Path.isAbsolute dir = false) ∨ Path.isAbsolute m.path = false) :
    ∃ tail, Path.isAbsolute tail = false ∧ m.path = Path.join root tail := by
  rcases path_of_find? h horigin with ⟨dir, hdir, hpath⟩ | ⟨dir, hdir, hpath⟩
  · have hrelative : Path.isAbsolute dir = false := by
      rcases hdirs with hdirs | hdirs
      · exact hdirs dir hdir
      · cases habsolute : Path.isAbsolute dir with
        | false => rfl
        | true =>
          have hjoin : Path.join root dir = dir := if_pos habsolute
          rw [hpath, hjoin, Path.isAbsolute_join habsolute] at hdirs
          cases hdirs
    exact ⟨_, Path.isAbsolute_join_relative hrelative hname,
      hpath.trans (Path.join_join root hrelative hname)⟩
  · rcases FileTree.mem_directories hdir with rfl | ⟨names, hnames, rfl⟩
    · exact ⟨name, hname, hpath⟩
    · have hrelative := (Path.telling_ofPieces hnames).1
      exact ⟨_, Path.isAbsolute_join_relative hrelative hname,
        hpath.trans (Path.join_join root hrelative hname)⟩

end Search

namespace Stage

variable {s : Stage} {files : FileTree} {word path : Text} {m : Match}

/-- Nothing is taken off the path of an executable, for it ends in a name. -/
theorem fromRoot_of_root_nil (hroot : s.root = []) {p : Path} (h : files.isExecutable p = true) :
    s.fromRoot p = p := by
  rw [fromRoot, Path.below?, if_pos hroot, Option.getD_some, FileTree.trimmed_of_isExecutable h]

/-- The path from the root is what is left of the path that was found, unless that was found in a
known directory that is absolute. -/
theorem below?_found (h : s.resolve files word = .searched path m) (horigin : m.origin ≠ .host)
    (hdirs : (∀ dir ∈ s.search.binDirs, Path.isAbsolute dir = false) ∨
      Path.isAbsolute (s.fromRoot m.path) = false) :
    Path.below? s.root m.path = some (s.fromRoot m.path) := by
  cases hbelow : Path.below? s.root m.path with
  | some rest => rw [fromRoot, hbelow, Option.getD_some]
  | none =>
    rw [fromRoot, hbelow, Option.getD_none] at hdirs
    obtain ⟨hfind, _⟩ := find?_of_searched h
    obtain ⟨tail, htail, hjoin⟩ :=
      Search.exists_tail hfind horigin (isAbsolute_of_searched h horigin) hdirs
    obtain ⟨rest, hrest⟩ := Path.exists_below?_join s.root htail
    rw [← hjoin, hbelow] at hrest
    cases hrest

theorem target_found (h : s.resolve files word = .searched path m) (horigin : m.origin ≠ .host)
    (hne : s.fromRoot m.path ≠ []) (hrelative : Path.isAbsolute (s.fromRoot m.path) = false)
    (hshort : (Path.join s.root (s.fromRoot m.path)).length < pathLimit) {place : Location}
    (htarget : files.target .reach m.path = .ok (.node place)) :
    files.target .reach (Path.join s.root (s.fromRoot m.path)) = .ok (.node place) := by
  have hbelow := below?_found h horigin (.inr hrelative)
  by_cases hroot : s.root = []
  · have hexecutable := Search.isExecutable_of_find? (find?_of_searched h).1 horigin
    have hself : Path.join s.root (s.fromRoot m.path) = m.path := by
      rw [Path.join, if_neg (by simp [hrelative]), if_pos (.inl hroot), hroot,
        fromRoot_of_root_nil hroot hexecutable]
      rfl
    rw [hself]
    exact htarget
  · exact FileTree.target_below hroot hbelow hne hshort htarget

theorem isExecutable_found (h : s.resolve files word = .searched path m)
    (horigin : m.origin ≠ .host)
    (hne : s.fromRoot m.path ≠ []) (hrelative : Path.isAbsolute (s.fromRoot m.path) = false)
    (hshort : (Path.join s.root (s.fromRoot m.path)).length < pathLimit) :
    files.isExecutable (Path.join s.root (s.fromRoot m.path)) = true := by
  obtain ⟨hfind, _⟩ := find?_of_searched h
  obtain ⟨place, f, htarget, hnode, hexecutable⟩ :=
    FileTree.file_of_isExecutable (Search.isExecutable_of_find? hfind horigin)
  exact FileTree.isExecutable_of_target (target_found h horigin hne hrelative hshort htarget) hnode
    hexecutable

theorem fit_of_searched (h : s.resolve files word = .searched path m) (horigin : m.origin ≠ .host)
    (hdirs : ∀ dir ∈ s.search.binDirs, Path.isAbsolute dir = false) :
    s.fromRoot m.path ≠ [] ∧ (Path.join s.root (s.fromRoot m.path)).length < pathLimit := by
  have hbelow := below?_found h horigin (.inl hdirs)
  obtain ⟨hfind, _⟩ := find?_of_searched h
  have hexecutable := Search.isExecutable_of_find? hfind horigin
  obtain ⟨_, hshort⟩ := FileTree.fit_of_isExecutable hexecutable
  obtain ⟨tail, htail, hjoin⟩ :=
    Search.exists_tail hfind horigin (isAbsolute_of_searched h horigin) (.inl hdirs)
  constructor
  · intro hnone
    have htelling := Path.telling_below hbelow
    rw [hnone, hjoin, Path.telling_join s.root htail, List.append_cancel_left_eq] at htelling
    exact FileTree.telling_of_isExecutable htail (hjoin ▸ hexecutable) htelling
  · have hpart : s.fromRoot m.path <:+: tail := by
      rw [hjoin] at hbelow
      rw [hjoin]
      exact Path.infix_of_below?_join htail hbelow
    exact Nat.lt_of_le_of_lt (Path.length_join_le s.root htail hpart) (hjoin ▸ hshort)

end Stage

namespace EntryPoint

variable {e : EntryPoint} {s : Stage} {files : FileTree} {word path : Text} {arguments : List Text}
  {m : Match}

theorem invokes_of_isExecutable (hne : path ≠ []) (hspace : ' ' ∉ path)
    (hneeds : needsWrapper (Words.unsplit (path :: arguments)) = false)
    (h : files.isExecutable (Path.join s.root path) = true) :
    s.Invokes files (Words.unsplit (path :: arguments)) := by
  have hhead : (Words.unsplit (path :: arguments)).head? ≠ some ' ' := by
    obtain ⟨c, others, rfl⟩ := List.exists_cons_of_ne_nil hne
    obtain ⟨rest, hrest⟩ := Words.unsplit_prefix (c :: others) arguments
    have hc : ' ' ≠ c := List.ne_of_not_mem_cons hspace
    simpa [← hrest] using hc.symm
  obtain ⟨others, hsplit⟩ := Words.split?_firstOf hneeds hhead
  rw [Words.firstOf_unsplit, Words.firstOf_eq_self hspace] at hsplit
  exact ⟨hneeds, path, others, hsplit, h⟩

theorem concluding_of_needsWrapper {p : Policy} {outcome : Except Failure Text} {entry : EntryPoint}
    (h : Concluding e p s files outcome entry) (hmay : p.mayWrap = true)
    (hneeds : needsWrapper e.command = true) : outcome = .ok e.wrapperName ∧ entry = e.wrap := by
  cases h with
  | wrapped _ _ => exact ⟨rfl, rfl⟩
  | refused _ hrefused => simp [hmay] at hrefused
  | direct hdirect _ => simp [hneeds] at hdirect
  | stuck hdirect _ => simp [hneeds] at hdirect

theorem concluding_of_invokes {p : Policy} {outcome : Except Failure Text} {entry : EntryPoint}
    (h : Concluding e p s files outcome entry) (hinvokes : s.Invokes files e.command) :
    outcome = .ok e.command ∧ entry = e := by
  cases h with
  | wrapped hneeds _ => simp [hinvokes.1] at hneeds
  | refused hneeds _ => simp [hinvokes.1] at hneeds
  | direct _ _ => exact ⟨rfl, rfl⟩
  | stuck _ hruns => simp [checkRunnable_of_invokes hinvokes] at hruns

/-- The command of an entry point that is not wrapped yet is found in the staged root, at a path
without a space. -/
structure IsFound (e : EntryPoint) (s : Stage) (files : FileTree) (word : Text)
    (arguments : List Text) (path : Text) (m : Match) : Prop where
  fresh : e.wrapped? = none
  relative : Path.isAbsolute e.command = false
  words : RuntimeForm.commandWords? s e.command = some (word :: arguments)
  resolves : s.resolve files word = .searched path m
  staged : m.origin ≠ .host
  solid : ' ' ∉ path

/-- What comes of a command that is found: with the path in place of its first word it goes behind a
wrapper, or it is the command to run. For the latter the path must be fit to be looked up from the
root, as it is wherever the known directories are relative. -/
structure SettlesFound (e : EntryPoint) (s : Stage) (files : FileTree) (path : Text)
    (arguments : List Text) : Prop where
  wrapped : needsWrapper (Words.unsplit (path :: arguments)) = true →
    (e.settle ⟨true, true⟩ s files).outcome = .ok e.wrapperName ∧
      (e.settle ⟨true, true⟩ s files).entry.command = e.wrapperName ∧
      (e.settle ⟨true, true⟩ s files).entry.wrapped? = some (Words.unsplit (path :: arguments))
  direct : needsWrapper (Words.unsplit (path :: arguments)) = false →
    (∀ dir ∈ s.search.binDirs, Path.isAbsolute dir = false) ∨
      path ≠ [] ∧ (Path.join s.root path).length < pathLimit →
    (e.settle ⟨true, true⟩ s files).outcome = .ok (Words.unsplit (path :: arguments)) ∧
      (e.settle ⟨true, true⟩ s files).entry.command = Words.unsplit (path :: arguments) ∧
      (e.settle ⟨true, true⟩ s files).entry.wrapped? = none

/-- A text that can be invoked shows no sign of a loss, so the path in front of it is whole. -/
theorem fromRoot_of_direct (h : s.resolve files word = .searched path m)
    (hneeds : needsWrapper (Words.unsplit (path :: arguments)) = false) :
    s.fromRoot m.path = path := by
  obtain ⟨_, _, hletters⟩ := needsWrapper_eq_false_iff.mp hneeds
  obtain ⟨_, hsame⟩ := Stage.find?_of_searched h
  have hclear : '\uFFFD' ∉ path := by
    intro hmem
    have hletter := hletters _ ((Words.unsplit_prefix path arguments).subset hmem)
    revert hletter
    decide
  exact (Path.text_eq_iff hclear).mp hsame.symm

theorem settlesFound_of_isFound (h : e.IsFound s files word arguments path m) :
    e.SettlesFound s files path arguments := by
  have hform := RuntimeForm.ofDeclared_of_words h.relative h.words
    (RuntimeForm.directiveOf_of_searched h.resolves)
  have htext : (RuntimeForm.ofWords s files e.command word arguments []).text? =
      some (Words.unsplit (path :: arguments)) := by
    rw [RuntimeForm.text?_ofWords, h.resolves]
    rfl
  have hconcluding := concluding_settle_of_form (p := ⟨true, true⟩) h.fresh rfl hform htext
  have hcommand : (e.inForm (RuntimeForm.ofWords s files e.command word arguments [])).command =
      Words.unsplit (path :: arguments) := by simp [inForm, htext]
  constructor
  · intro hneeds
    obtain ⟨houtcome, hentry⟩ := concluding_of_needsWrapper hconcluding rfl (hcommand ▸ hneeds)
    rw [houtcome, hentry, ← hcommand]
    exact ⟨rfl, rfl, rfl⟩
  · intro hneeds hfit
    -- The text is in the command pattern, so what it tells of the path is the path itself.
    have hseen := fromRoot_of_direct h.resolves hneeds
    obtain ⟨hne, hshort⟩ : path ≠ [] ∧ (Path.join s.root path).length < pathLimit := by
      refine hfit.elim (fun hdirs => ?_) id
      obtain ⟨hne, hshort⟩ := Stage.fit_of_searched h.resolves h.staged hdirs
      rw [hseen] at hne hshort
      exact ⟨mt Path.of_eq_nil_iff.mpr hne, hshort⟩
    have hpath : Path.isAbsolute path = false := by
      obtain ⟨_, habsolute, _⟩ := needsWrapper_eq_false_iff.mp hneeds
      rwa [RuntimeForm.isAbsolute_unsplit hne] at habsolute
    have hexecutable : files.isExecutable (Path.join s.root path) = true := by
      rw [← hseen] at hpath hshort ⊢
      refine Stage.isExecutable_found h.resolves h.staged ?_ hpath hshort
      rw [hseen]
      exact mt Path.of_eq_nil_iff.mp hne
    have hinvokes := invokes_of_isExecutable hne h.solid hneeds hexecutable
    obtain ⟨houtcome, hentry⟩ := concluding_of_invokes hconcluding (hcommand ▸ hinvokes)
    rw [houtcome, hentry, hcommand]
    exact ⟨rfl, rfl, h.fresh⟩

def foundTool : EntryPoint := declare (Text.of "app") (Text.of "serve") (Text.of "run now")

theorem foundTool_settlesFound :
    foundTool.IsFound RuntimeForm.scriptStage RuntimeForm.scriptTree (Text.of "run")
        [Text.of "now"] (Text.of "bin/run") RuntimeForm.foundRun ∧
      foundTool.SettlesFound RuntimeForm.scriptStage RuntimeForm.scriptTree (Text.of "bin/run")
        [Text.of "now"] := by
  have hfound : foundTool.IsFound RuntimeForm.scriptStage RuntimeForm.scriptTree (Text.of "run")
      [Text.of "now"] (Text.of "bin/run") RuntimeForm.foundRun :=
    ⟨rfl, by decide, by rfl, RuntimeForm.resolve_run, by decide, by decide⟩
  exact ⟨hfound, settlesFound_of_isFound hfound⟩

def fileRootTree : FileTree :=
  (FileTree.empty.addFile (Text.of "/stage") ⟨[], 0o755⟩).toOption.getD .empty

/-- A stage whose root is that file. It knows the directory that the file is in. -/
def fileRootStage : Stage :=
  ⟨Text.of "/stage", Text.of "$SNAP", ⟨[Text.of "/"], .full, .named (.ofList [])⟩⟩

def rootCommand : EntryPoint :=
  declare (Text.of "app") (Text.of "serve") (Text.of "stage --serve")

/-- A stage whose root is `/stage` with more slashes before it than a path may have. -/
def longRootStage : Stage :=
  ⟨List.replicate pathLimit Path.slash ++ Path.of (Text.of "stage"), Text.of "$SNAP",
    ⟨[Text.of "/stage/bin"], .full, .named (.ofList [])⟩⟩

/-- In an absolute known directory the root itself may be found, which leaves no path from there.
And what is found may lie too deep, if the root is spelt at too great a length. -/
theorem found_commands_do_not_settle :
    (rootCommand.IsFound fileRootStage fileRootTree (Text.of "stage") [Text.of "--serve"] []
        ⟨Text.of "stage", Text.of "/stage", .binaryDirectory⟩ ∧
      (rootCommand.settle ⟨true, true⟩ fileRootStage fileRootTree).outcome =
        .error (.notExecutable (Text.of "app") (Text.of " --serve"))) ∧
    foundTool.IsFound longRootStage RuntimeForm.scriptTree (Text.of "run") [Text.of "now"]
        (Text.of "bin/run") ⟨Text.of "run", Text.of "/stage/bin/run", .binaryDirectory⟩ ∧
      (foundTool.settle ⟨true, true⟩ longRootStage RuntimeForm.scriptTree).outcome =
        .error (.notExecutable (Text.of "app") (Text.of "bin/run now")) := by
  refine ⟨⟨⟨rfl, by decide, by rfl, by rfl, by decide, by decide⟩, by rfl⟩,
    ⟨rfl, by decide, by rfl, ?_, by decide, by decide⟩, ?_⟩
  -- So many slashes are beyond the elaborator's depth, hence the kernel evaluates both.
  · decide +kernel
  · decide +kernel

end EntryPoint
end EntryPoints
