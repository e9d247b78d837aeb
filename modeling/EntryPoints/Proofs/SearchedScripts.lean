import EntryPoints.Proofs.FormWords
import EntryPoints.Proofs.Spelling

/-!
Commands that are searched for, beside commands that are named. A directive is read from the file
that the command word names as it stands, before any search. A word that has to be searched for
names no file, so what a search finds gets no interpreter, and comes out as it would if it were
named exactly if it has no directive (`searched_as_named_iff`).
-/
namespace EntryPoints.RuntimeForm

variable {s : Stage} {files : FileTree} {name path : Text} {arguments : List Text} {m : Match}

theorem relative_of_bare (hbare : '/' ∉ name) : s.relative name = name := by
  refine Stage.relative_eq_self_iff.mpr ⟨Path.isAbsolute_of_not_mem hbare, ?_⟩
  intro hanchor
  exact hbare (hanchor.subset (by simp [Stage.anchor]))

theorem directiveOf_of_searched (h : s.resolve files name = .searched path m) :
    directiveOf s files name = .ok [] := by
  rw [directiveOf]
  split
  · rename_i hfile
    rw [resolve_of_holds (FileTree.holds_of_isFile hfile)] at h
    cases h
  · rfl

theorem isAbsolute_unsplit (hne : name ≠ []) (arguments : List Text) :
    Path.isAbsolute (Words.unsplit (name :: arguments)) = Path.isAbsolute name := by
  obtain ⟨rest, hrest⟩ := Words.unsplit_prefix name arguments
  rw [← hrest, Path.isAbsolute_of_append hne]

theorem isWord_command (hname : Words.IsPlain name) (harguments : ∀ a ∈ arguments, Words.IsWord a) :
    ∀ w ∈ name :: arguments, Words.IsWord w :=
  List.forall_mem_cons.mpr ⟨.inl hname, harguments⟩

theorem runtimeText?_of_searched (hname : Words.IsPlain name) (hbare : '/' ∉ name)
    (hfound : s.resolve files name = .searched path m)
    (harguments : ∀ a ∈ arguments, Words.IsWord a)
    (hanchor : ¬ s.anchor <+: Words.unsplit (name :: arguments)) :
    runtimeText? s files (Words.unsplit (name :: arguments)) =
      some (Words.unsplit (path :: arguments)) := by
  have hrelative : Path.isAbsolute (Words.unsplit (name :: arguments)) = false := by
    rw [isAbsolute_unsplit hname.1]
    exact (Stage.relative_eq_self_iff.mp (relative_of_bare (s := s) hbare)).1
  have hwords := commandWords?_of_split? hanchor
    (Words.split?_unsplit (isWord_command hname harguments))
  rw [runtimeText?_of_words hrelative hwords (directiveOf_of_searched hfound), hfound]
  rfl

theorem runtimeText?_named_iff (hpath : Words.IsPlain path)
    (hrelative : Path.isAbsolute path = false)
    (harguments : ∀ a ∈ arguments, Words.IsWord a)
    (hanchor : ¬ s.anchor <+: Words.unsplit (path :: arguments)) :
    runtimeText? s files (Words.unsplit (path :: arguments)) =
        some (Words.unsplit (path :: arguments)) ↔
      directiveOf s files path = .ok [] ∧ (s.resolve files path).path? = some path := by
  have hword : s.relative path = path := Stage.relative_eq_self_iff.mpr
    ⟨hrelative, fun hstart => hanchor (hstart.trans (Words.unsplit_prefix path arguments))⟩
  rw [runtimeText?_eq_self_iff (by rw [isAbsolute_unsplit hpath.1, hrelative]) hanchor
    (Words.split?_unsplit (isWord_command hpath harguments)) hword]
  apply and_congr_right
  intro _
  constructor
  · rintro ⟨found, hfound, htext⟩
    obtain rfl := Words.unsplit_cons_inj htext
    exact hfound
  · intro hfound
    exact ⟨path, hfound, rfl⟩

/-- A bare name that is found in the staged root stands for its path there, and its command comes
out with that path and nothing else. The command with the path in place of the name comes out alike
exactly if the file has no directive and the path is found as it is written, as it is below an
absolute root that is not too deep, if the path is a text there. -/
theorem searched_as_named_iff (hname : Words.IsPlain name) (hbare : '/' ∉ name)
    (hfound : s.resolve files name = .searched path m) (horigin : m.origin ≠ .host)
    (hpath : Words.IsPlain path) (hrelative : Path.isAbsolute path = false)
    (harguments : ∀ a ∈ arguments, Words.IsWord a)
    (hsearched : ¬ s.anchor <+: Words.unsplit (name :: arguments))
    (hnamed : ¬ s.anchor <+: Words.unsplit (path :: arguments)) :
    runtimeText? s files (Words.unsplit (name :: arguments)) =
        some (Words.unsplit (path :: arguments)) ∧
      (runtimeText? s files (Words.unsplit (name :: arguments)) =
          runtimeText? s files (Words.unsplit (path :: arguments)) ↔
        directiveOf s files path = .ok [] ∧ (s.resolve files path).path? = some path) ∧
      (Path.isAbsolute s.root = true → (s.fromRoot m.path).IsText →
        (Path.join s.root path).length < pathLimit → s.resolve files path = .literal path) := by
  have htext := runtimeText?_of_searched hname hbare hfound harguments hsearched
  refine ⟨htext, ?_, ?_⟩
  · rw [htext, ← runtimeText?_named_iff hpath hrelative harguments hnamed]
    exact eq_comm
  · intro hroot hclear hshort
    have hword : s.relative path = path := Stage.relative_eq_self_iff.mpr
      ⟨hrelative, fun hstart => hnamed (hstart.trans (Words.unsplit_prefix path arguments))⟩
    exact Stage.resolve_found hfound horigin hroot hclear hword hpath.1 hrelative hshort

def foundRun : Match := ⟨Text.of "run", Text.of "/stage/bin/run", .binaryDirectory⟩

theorem resolve_run :
    scriptStage.resolve scriptTree (Text.of "run") = .searched (Text.of "bin/run") foundRun := by
  rfl

theorem run_now_as_named_iff :
    scriptStage.resolve scriptTree (Text.of "run") = .searched (Text.of "bin/run") foundRun ∧
      runtimeText? scriptStage scriptTree (Text.of "run now") = some (Text.of "bin/run now") ∧
      (runtimeText? scriptStage scriptTree (Text.of "run now") =
          runtimeText? scriptStage scriptTree (Text.of "bin/run now") ↔
        directiveOf scriptStage scriptTree (Text.of "bin/run") = .ok [] ∧
          (scriptStage.resolve scriptTree (Text.of "bin/run")).path? = some (Text.of "bin/run")) ∧
      scriptStage.resolve scriptTree (Text.of "bin/run") = .literal (Text.of "bin/run") := by
  have harguments : ∀ a ∈ [Text.of "now"], Words.IsWord a :=
    List.forall_mem_singleton.mpr (.inl (by decide))
  obtain ⟨htext, hagree, hnamed⟩ := searched_as_named_iff (by decide) (by decide) resolve_run
    (by decide) (by decide) (by decide) harguments (by decide) (by decide)
  exact ⟨resolve_run, htext, hagree, hnamed (by decide) (by decide) (by decide)⟩

/-- Under valid settings a script runs with its interpreter if it is named, and without if it is
searched for. -/
theorem searched_script_lacks_interpreter :
    ({} : Settings).fault? = none ∧
      scriptStage.resolve scriptTree (Text.of "run") = .searched (Text.of "bin/run") foundRun ∧
      runtimeText? scriptStage scriptTree (Text.of "run now") = some (Text.of "bin/run now") ∧
      runtimeText? scriptStage scriptTree (Text.of "bin/run now") =
        some (Text.of "/opt/widget -u $SNAP/bin/run now") := by
  refine ⟨by decide, resolve_run, by rfl, by rfl⟩

end EntryPoints.RuntimeForm
