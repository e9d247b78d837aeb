import EntryPoints.Proofs.Confinement
import EntryPoints.Proofs.Invocation

/-!
Which locations a run changes. It writes nothing but wrappers, but their names are made of names
that a manifest may choose freely, and are read as paths from the staged root. A name that climbs,
or begins with a slash, takes the wrapper out of the root.
-/
namespace EntryPoints

namespace EntryPoint

def wrapperLocation (e : EntryPoint) (s : Stage) : Location := Path.location (e.wrapperPath s)

variable {e : EntryPoint} {s : Stage}

theorem last_step_wrapperName (e : EntryPoint) :
    ∃ name, (Path.steps e.wrapperName).getLast? = some (.enter name) := by
  have hname : Path.of e.wrapperName =
      Path.of (e.name ++ '-' :: e.app ++ Text.of ".wrappe") ++ Path.of ['r'] := by
    rw [← Path.of_append, List.append_assoc]
    rfl
  rw [hname]
  exact Path.last_step_of_byte (by decide) (by decide) _

theorem isUnder_wrapperLocation (h : Path.isInward e.wrapperName = true) :
    (e.wrapperLocation s).IsUnder (Path.location s.root) := by
  obtain ⟨name, hlast⟩ := last_step_wrapperName e
  exact Path.isUnder_of_isInward h hlast

theorem isInward_wrapperName (h : '/' ∉ e.name ++ e.app) : Path.isInward e.wrapperName = true := by
  have hslash : '/' ∉ e.wrapperName := by
    intro hmem
    rcases mem_wrapperName.mp hmem with hnames | hfixed
    · exact h hnames
    · revert hfixed
      decide
  have hclimbs : Path.climbs e.wrapperName = false := by
    have hdash : '-' ∈ e.wrapperName := mem_wrapperName.mpr (.inr List.mem_cons_self)
    have hdots : e.wrapperName ≠ ['.', '.'] := by
      intro hdots
      rw [hdots] at hdash
      revert hdash
      decide
    have hpiece : Path.of e.wrapperName ≠ [Path.dot, Path.dot] := mt Path.of_eq_dots_iff.mp hdots
    simpa [Path.climbs, Path.pieces_of, Text.cut_of_not_mem hslash, eq_comm] using hpiece
  exact Path.isInward_of_not_climbs (Path.isAbsolute_of_not_mem hslash) hclimbs

end EntryPoint

namespace Run
open EntryPoint (invokedAt?)
open FileTree (bareTree linkFree_bareTree)

variable {s : Stage} {files : FileTree} {m : Manifest} {place : Location}

/-- The run leaves something else at the location than was there, or nothing where something was. -/
def Changes (s : Stage) (files : FileTree) (m : Manifest) (place : Location) : Prop :=
  (ofManifest s files m).files.node? place ≠ files.node? place

theorem changed_at_writer (hlinks : files.LinkFree) (h : Changes s files m place) :
    ∃ e ∈ writers s files m, e.wrapped?.isSome ∧ place = e.wrapperLocation s := by
  rw [Changes, node?_ofManifest] at h
  cases hlast : ((writers s files m).filterMap (invokedAt? s files place)).getLast? with
  | none =>
    rw [hlast] at h
    exact absurd rfl h
  | some text =>
    obtain ⟨e, he, hthere⟩ := List.mem_filterMap.mp (List.mem_of_getLast? hlast)
    obtain ⟨hsite, wrapped, hwrapped, _⟩ := EntryPoint.invokedAt?_eq_some_iff.mp hthere
    exact ⟨e, he, by simp [hwrapped], FileTree.destination_of_linkFree hlinks hsite⟩

theorem isWritable_of_mem_writers {e : EntryPoint} (he : e ∈ writers s files m) :
    e.isWritable s files = true := by
  rw [writers] at he
  split at he
  · exact (List.all_eq_true.mp List.all_takeWhile) e he
  · exact absurd he List.not_mem_nil

theorem wrapper_at_writer (hlinks : files.LinkFree) {e : EntryPoint} (he : e ∈ writers s files m)
    (hwrapped : e.wrapped?.isSome) : ∃ text,
      (ofManifest s files m).files.node? (e.wrapperLocation s) =
        some (.file (Wrapper.file text)) := by
  obtain ⟨place, hsite, _⟩ :=
    EntryPoint.isWritable_iff.mp (isWritable_of_mem_writers he) hwrapped
  obtain rfl : place = e.wrapperLocation s := FileTree.destination_of_linkFree hlinks hsite
  obtain ⟨text, hlast⟩ := last_at_site he hsite hwrapped
  refine ⟨text, ?_⟩
  rw [node?_ofManifest, hlast]
  rfl

/-- Without links a run changes only what lies under its root exactly if each wrapper whose path
spells another location leaves that as it was; for a wrapper comes to lie where its path spells.
That is under the root if the name of the wrapper never climbs, which it does not where the names
that it is made of have no slash. -/
theorem changes_under_root_iff (hlinks : files.LinkFree) :
    (∀ place, Changes s files m place → ∃ e ∈ writers s files m,
      e.wrapped?.isSome ∧ place = e.wrapperLocation s) ∧
    (∀ e ∈ writers s files m, e.wrapped?.isSome → ∃ text,
      (ofManifest s files m).files.node? (e.wrapperLocation s) =
        some (.file (Wrapper.file text))) ∧
    ((∀ place, Changes s files m place → place.IsUnder (Path.location s.root)) ↔
      ∀ e ∈ writers s files m, e.wrapped?.isSome →
        (e.wrapperLocation s).IsUnder (Path.location s.root) ∨
          ¬ Changes s files m (e.wrapperLocation s)) ∧
    ∀ e : EntryPoint,
      (Path.isInward e.wrapperName = true →
        (e.wrapperLocation s).IsUnder (Path.location s.root)) ∧
      ('/' ∉ e.name ++ e.app → Path.isInward e.wrapperName = true) := by
  refine ⟨fun _ => changed_at_writer hlinks, fun _ => wrapper_at_writer hlinks, ⟨?_, ?_⟩, ?_⟩
  · intro hunder e _ _
    exact Classical.or_iff_not_imp_right.mpr fun hchanges =>
      hunder (e.wrapperLocation s) (Classical.not_not.mp hchanges)
  · intro hunder place hchanges
    obtain ⟨e, he, hwrapped, rfl⟩ := changed_at_writer hlinks hchanges
    exact (hunder e he hwrapped).resolve_right (not_not_intro hchanges)
  · intro e
    exact ⟨EntryPoint.isUnder_wrapperLocation, EntryPoint.isInward_wrapperName⟩

def bareStage : Stage := ({} : Settings).stage bareTree (Text.of "/stage") (.named .empty)

def climbingName : Manifest :=
  ⟨.ofList [(Text.of "app", ⟨.legacy, .ofList [(Text.of "../run", Text.of "/bin/true")]⟩)]⟩

theorem bareTree_changes_under_root :
    bareTree.LinkFree ∧
      Changes bareStage bareTree spacedName [Text.of "stage", Text.of "run it-app.wrapper"] ∧
      ∀ place, Changes bareStage bareTree spacedName place →
        place.IsUnder (Path.location bareStage.root) := by
  obtain ⟨_, _, hunder, hnames⟩ :=
    changes_under_root_iff (s := bareStage) (m := spacedName) linkFree_bareTree
  refine ⟨linkFree_bareTree, ?_, hunder.mpr ?_⟩
  · intro hsame
    have hafter : (ofManifest bareStage bareTree spacedName).files.node?
        [Text.of "stage", Text.of "run it-app.wrapper"] =
          some (.file (Wrapper.file (Text.of "/bin/true"))) := by rfl
    have hbefore : bareTree.node? [Text.of "stage", Text.of "run it-app.wrapper"] = none := by rfl
    rw [hafter, hbefore] at hsame
    cases hsame
  · intro e he _
    have hwriters : (writers bareStage bareTree spacedName).map (fun e => e.name ++ e.app) =
        [Text.of "run itapp"] := by rfl
    have hname : e.name ++ e.app ∈ [Text.of "run itapp"] := hwriters ▸ List.mem_map_of_mem he
    have hslash : '/' ∉ e.name ++ e.app := by
      rw [List.mem_singleton.mp hname]
      decide
    exact .inl ((hnames e).1 ((hnames e).2 hslash))

/-- Under valid settings a name that climbs puts its wrapper beside the staged root. -/
theorem climbingName_leaves_root :
    ({} : Settings).fault? = none ∧ bareTree.LinkFree ∧
      Changes bareStage bareTree climbingName [Text.of "run-app.wrapper"] ∧
      ¬ Location.IsUnder [Text.of "run-app.wrapper"] (Path.location bareStage.root) := by
  refine ⟨by decide, linkFree_bareTree, ?_, ?_⟩
  · intro hsame
    have hafter : (ofManifest bareStage bareTree climbingName).files.node?
        [Text.of "run-app.wrapper"] =
          some (.file (Wrapper.file (Text.of "/bin/true"))) := by rfl
    have hbefore : bareTree.node? [Text.of "run-app.wrapper"] = none := by rfl
    rw [hafter, hbefore] at hsame
    cases hsame
  · rintro ⟨hbegins, _⟩
    have hroot : Path.location bareStage.root = [Path.of (Text.of "stage")] := by rfl
    rw [hroot] at hbegins
    revert hbegins
    decide

end Run
end EntryPoints
