import EntryPoints.Proofs.Independence
import EntryPoints.Proofs.WrapperFiles

/-!
What a run leaves when it fails. If an entry point cannot be settled, nothing was written. But a
wrapper may also turn out to have no place that a file can take, and then those that were written
before it stay: nothing is taken back. The files are as they were only if each of them was already
there.
-/
namespace EntryPoints.Run
open EntryPoint (invokedAt?)

variable {s : Stage} {files left : FileTree} {m : Manifest} {es : List EntryPoint}
  {outcome : Except RunFailure (List Entry)} {f : RunFailure}

/-- At each location to which wrappers go, the last of them is there already. -/
def StandAlready (s : Stage) (files : FileTree) (es : List EntryPoint) : Prop :=
  ∀ place text, (es.filterMap (invokedAt? s files place)).getLast? = some text →
    files.node? place = some (.file (Wrapper.file text))

theorem writing_untouched_iff (h : Writing s files es outcome left) :
    left = files ↔ StandAlready s files (written s files es) := by
  have hnode := node?_writing h
  constructor
  · rintro rfl place text hlast
    rw [hnode, hlast]
    rfl
  · intro hstand
    apply FileTree.ext_node?
    intro place
    rw [hnode]
    cases hlast : ((written s files es).filterMap (invokedAt? s files place)).getLast? with
    | none => rfl
    | some text => exact (hstand place text hlast).symm

/-- The run settles every entry point and writes wrappers up to that of `stuck`, which has no place
that a file can take. -/
structure StopsWriting (s : Stage) (files : FileTree) (m : Manifest) (before : List EntryPoint)
    (stuck : EntryPoint) : Prop where
  settles : AllSettle s files m
  split : ∃ after, m.settled s files = before ++ stuck :: after
  writes : ∀ e ∈ before, e.wrapped?.isSome → files.Takes (e.wrapperPath s)
  wrapped : stuck.wrapped?.isSome
  refused : ¬ files.Takes (stuck.wrapperPath s)

theorem stopsWriting_of_split (hsettles : AllSettle s files m) {before after : List EntryPoint}
    {stuck : EntryPoint} (hsplit : m.settled s files = before ++ stuck :: after)
    (hbefore : ∀ e ∈ before, e.isWritable s files = true)
    (hstuck : stuck.isWritable s files = false) : StopsWriting s files m before stuck := by
  have hnot : ¬ (stuck.wrapped?.isSome → files.Takes (stuck.wrapperPath s)) := by
    rw [← EntryPoint.isWritable_iff, hstuck]
    exact Bool.false_ne_true
  obtain ⟨hwrapped, hrefused⟩ := Classical.not_imp.mp hnot
  refine ⟨hsettles, ⟨after, hsplit⟩, ?_, hwrapped, hrefused⟩
  intro e he
  exact EntryPoint.isWritable_iff.mp (hbefore e he)

/-- A run that fails leaves the files as they were if some entry point cannot be settled. Otherwise
some wrapper cannot be written, and then the files are as they were exactly if every wrapper before
it already stood in its place. -/
theorem untouched_iff_of_error (h : (ofManifest s files m).outcome = .error f) :
    (∃ ea cause, FirstUnsettled s files m.entryPoints ea cause ∧
        f = .unsettled ea.1.app ea.1.name cause ∧ (ofManifest s files m).files = files) ∨
      ∃ before stuck cause, StopsWriting s files m before stuck ∧
        f = .wrapperUnwritten stuck.wrapperName cause ∧
          ((ofManifest s files m).files = files ↔ StandAlready s files before) := by
  rcases ofManifest_cases s files m with ⟨ea, cause, hfirst, _, houtcome, hfiles⟩ |
    ⟨hsettles, _, hwriting⟩
  · rw [h] at houtcome
    exact .inl ⟨ea, cause, hfirst, Except.error.inj houtcome, hfiles⟩
  · have huntouched := writing_untouched_iff hwriting
    rw [h] at hwriting
    rcases outcome_writing hwriting with ⟨hok, _⟩ |
      ⟨before, stuck, after, cause, hsplit, hbefore, hstuck, herror⟩
    · cases hok
    · have hwritten : written s files (m.settled s files) = before := by
        rw [hsplit, written_append hbefore, written_stuck hstuck, List.append_nil]
      rw [hwritten] at huntouched
      exact .inr ⟨before, stuck, cause, stopsWriting_of_split hsettles hsplit hbefore hstuck,
        Except.error.inj herror, huntouched⟩

def absoluteCommands : Manifest :=
  ⟨.ofList [(Text.of "a", ⟨.legacy, .ofList [(Text.of "command", Text.of "/opt/a")]⟩),
    (Text.of "b", ⟨.legacy, .ofList [(Text.of "command", Text.of "/opt/b")]⟩)]⟩

def obstructed : FileTree := .put .empty [] (Text.of "command-b.wrapper") .directory

theorem obstructed_outcome : (ofManifest plainStage obstructed absoluteCommands).outcome =
    .error (.wrapperUnwritten (Text.of "command-b.wrapper")
      (.io (Text.of "/command-b.wrapper") .isADirectory)) := by
  rfl

theorem obstructed_changed :
    (ofManifest plainStage obstructed absoluteCommands).files ≠ obstructed := by
  intro huntouched
  have hbefore : obstructed.node? [Text.of "command-a.wrapper"] = none := by rfl
  have hafter : (ofManifest plainStage obstructed absoluteCommands).files.node?
      [Text.of "command-a.wrapper"] = some (.file (Wrapper.file (Text.of "/opt/a"))) := by rfl
  rw [huntouched, hbefore] at hafter
  cases hafter

theorem obstructed_stops_writing :
    ∃ before stuck, StopsWriting plainStage obstructed absoluteCommands before stuck ∧
      stuck.wrapperName = Text.of "command-b.wrapper" ∧
        ¬ StandAlready plainStage obstructed before := by
  rcases untouched_iff_of_error obstructed_outcome with ⟨_, _, _, hcause, _⟩ |
    ⟨before, stuck, cause, hstops, hcause, huntouched⟩
  · cases hcause
  · obtain ⟨hname, _⟩ := RunFailure.wrapperUnwritten.inj hcause
    exact ⟨before, stuck, hstops, hname.symm, mt huntouched.mpr obstructed_changed⟩

/-- Under valid settings a run can fail and leave the wrapper of its first entry point. -/
theorem obstructed_keeps_a_wrapper :
    ({} : Settings).fault? = none ∧
      (∃ f, (ofManifest plainStage obstructed absoluteCommands).outcome = .error f) ∧
      (ofManifest plainStage obstructed absoluteCommands).files ≠ obstructed :=
  ⟨by decide, ⟨_, obstructed_outcome⟩, obstructed_changed⟩

end EntryPoints.Run
