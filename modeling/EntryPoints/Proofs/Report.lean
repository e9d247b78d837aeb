import EntryPoints.Proofs.Settling
import EntryPoints.Proofs.Writing

/-!
What a run comes to. Its entry points are settled as each is by itself, up to the first that cannot
be (`outcome_settleAll`), and only if all are settled are wrappers written (`ofManifest_cases`).
They are all that a run changes (`node?_ofManifest`).
-/
namespace EntryPoints

/-- What comes of a declared entry point that is settled by itself, as its adapter has it. -/
def EntryPoint.alone (s : Stage) (files : FileTree) (ea : EntryPoint × Adapter) : Settlement :=
  ea.1.settle ea.2.policy s files

def Manifest.settled (m : Manifest) (s : Stage) (files : FileTree) : List EntryPoint :=
  m.entryPoints.map fun (e, a) => (e.settle a.policy s files).entry

variable {s : Stage} {files : FileTree}

theorem EntryPoint.alone_names (s : Stage) (files : FileTree) (ea : EntryPoint × Adapter) :
    (alone s files ea).entry.app = ea.1.app ∧ (alone s files ea).entry.name = ea.1.name :=
  settling_names (settling_settle ea.1 ea.2.policy s files)

namespace Run
open EntryPoint (alone invokedAt? reported)

theorem settleOne_of_ok {ea : EntryPoint × Adapter} {text : Text}
    (h : (alone s files ea).outcome = .ok text) :
    (settleOne s files ea.1 ea.2).1 = .ok (alone s files ea).entry := by
  rw [alone] at h ⊢
  simp only [settleOne, h]

theorem settleOne_of_error {ea : EntryPoint × Adapter} {f : Failure}
    (h : (alone s files ea).outcome = .error f) :
    (settleOne s files ea.1 ea.2).1 = .error (.unsettled ea.1.app ea.1.name f) := by
  obtain ⟨happ, hname⟩ := EntryPoint.alone_names s files ea
  rw [alone] at h happ hname
  simp only [settleOne, h, happ, hname]

/-- The first entry point that cannot be settled by itself, and why. -/
def FirstUnsettled (s : Stage) (files : FileTree) (es : List (EntryPoint × Adapter))
    (ea : EntryPoint × Adapter) (f : Failure) : Prop :=
  ∃ before after, es = before ++ ea :: after ∧
    (∀ b ∈ before, (alone s files b).outcome.isOk = true) ∧ (alone s files ea).outcome = .error f

theorem outcome_settleAll (s : Stage) (files : FileTree) (es : List (EntryPoint × Adapter)) :
    ((settleAll s files es).1 = .ok (es.map fun ea => (alone s files ea).entry) ∧
        ∀ ea ∈ es, (alone s files ea).outcome.isOk = true) ∨
      ∃ ea f, FirstUnsettled s files es ea f ∧
        (settleAll s files es).1 = .error (.unsettled ea.1.app ea.1.name f) := by
  induction es with
  | nil => exact .inl ⟨rfl, by simp⟩
  | cons ea rest ih =>
    cases hone : settleOne s files ea.1 ea.2 with
    | mk first log =>
      cases houtcome : (alone s files ea).outcome with
      | error f =>
        -- The first entry point stops the run, with none before it.
        have hfirst := settleOne_of_error houtcome
        rw [hone] at hfirst
        subst hfirst
        refine .inr ⟨ea, f, ⟨[], rest, rfl, by simp, houtcome⟩, ?_⟩
        simp only [settleAll, hone]
      | ok text =>
        have hfirst := settleOne_of_ok houtcome
        rw [hone] at hfirst
        subst hfirst
        have hok : (alone s files ea).outcome.isOk = true := by
          rw [houtcome]
          rfl
        have hall : (settleAll s files (ea :: rest)).1 =
            (settleAll s files rest).1.map ((alone s files ea).entry :: ·) := by
          simp only [settleAll, hone]
        rw [hall]
        rcases ih with ⟨hrest, hoks⟩ | ⟨stuck, f, ⟨before, after, rfl, hbefore, hstuck⟩, hrest⟩
        · rw [hrest]
          exact .inl ⟨rfl, List.forall_mem_cons.mpr ⟨hok, hoks⟩⟩
        · rw [hrest]
          have hbefore' : ∀ b ∈ ea :: before, (alone s files b).outcome.isOk = true :=
            List.forall_mem_cons.mpr ⟨hok, hbefore⟩
          exact .inr ⟨stuck, f, ⟨ea :: before, after, rfl, hbefore', hstuck⟩, rfl⟩

/-- A run stops at the first entry point that cannot be settled and leaves the files as they were,
or it settles all and then writes their wrappers. -/
theorem ofManifest_cases (s : Stage) (files : FileTree) (m : Manifest) :
    (∃ ea f, FirstUnsettled s files m.entryPoints ea f ∧
        (settleAll s files m.entryPoints).1 = .error (.unsettled ea.1.app ea.1.name f) ∧
        (ofManifest s files m).outcome = .error (.unsettled ea.1.app ea.1.name f) ∧
        (ofManifest s files m).files = files) ∨
      (∀ ea ∈ m.entryPoints, (alone s files ea).outcome.isOk = true) ∧
        (settleAll s files m.entryPoints).1 = .ok (m.settled s files) ∧
        Writing s files (m.settled s files) (ofManifest s files m).outcome
          (ofManifest s files m).files := by
  have hsettled := outcome_settleAll s files m.entryPoints
  simp only [ofManifest]
  cases hall : settleAll s files m.entryPoints with
  | mk outcome log =>
    rw [hall] at hsettled
    rcases hsettled with ⟨rfl, hoks⟩ | ⟨ea, f, hfirst, rfl⟩
    · exact .inr ⟨hoks, rfl, writing_writeAll s files (m.settled s files)⟩
    · exact .inl ⟨ea, f, hfirst, rfl, rfl, rfl⟩

/-- The entry points whose wrappers the run writes, if they have any. There are none unless all are
settled. -/
def writers (s : Stage) (files : FileTree) (m : Manifest) : List EntryPoint :=
  match (settleAll s files m.entryPoints).1 with
  | .ok settled => written s files settled
  | .error _ => []

/-- Whether or not a run succeeds, it leaves the last wrapper at each location that it wrote to, and
everything else as it was. -/
theorem node?_ofManifest (s : Stage) (files : FileTree) (m : Manifest) (place : Location) :
    (ofManifest s files m).files.node? place =
      (((writers s files m).filterMap (invokedAt? s files place)).getLast?.map fun text =>
        .file (Wrapper.file text)).or (files.node? place) := by
  rcases ofManifest_cases s files m with ⟨ea, f, _, herror, _, hfiles⟩ | ⟨_, hok, hwriting⟩
  · rw [writers, herror, hfiles]
    rfl
  · rw [writers, hok]
    exact node?_writing hwriting place

theorem ofManifest_ok {m : Manifest} {entries : List Entry}
    (h : (ofManifest s files m).outcome = .ok entries) :
    (∀ ea ∈ m.entryPoints, (alone s files ea).outcome.isOk = true) ∧
      Writing s files (m.settled s files) (.ok entries) (ofManifest s files m).files := by
  rcases ofManifest_cases s files m with ⟨ea, f, _, _, houtcome, _⟩ | ⟨hoks, _, hwriting⟩
  · rw [h] at houtcome
    cases houtcome
  · rw [h] at hwriting
    exact ⟨hoks, hwriting⟩

end Run
end EntryPoints
