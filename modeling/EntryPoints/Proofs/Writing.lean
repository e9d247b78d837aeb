import EntryPoints.Proofs.WriteSteps
import EntryPoints.Run

/-!
Writing wrappers one after the other. Whether a wrapper can be written does not hang on those that
were written before it (`isWritable_congr`), so the wrappers that come to be written are those
before the first that cannot be (`written`). In the end a location at which wrappers came to lie
holds the last of them, also if a later one could not be written (`node?_writing`).
-/
namespace EntryPoints

variable {s : Stage} {files : FileTree}

namespace EntryPoint

def reported (s : Stage) (e : EntryPoint) : Entry :=
  ⟨e.app, e.name, e.command, e.wrapped?.map fun _ => e.wrapperPath s, e.notices⟩

/-- What the wrapper of an entry point runs, if there is one and it goes to `place`. -/
def invokedAt? (s : Stage) (files : FileTree) (place : Location) (e : EntryPoint) : Option Text :=
  if files.site (e.wrapperPath s) = some place then e.wrapped?.map (invoked s) else none

theorem invokedAt?_eq_some_iff {place : Location} {e : EntryPoint} {text : Text} :
    invokedAt? s files place e = some text ↔
      files.site (e.wrapperPath s) = some place ∧
        ∃ wrapped, e.wrapped? = some wrapped ∧ invoked s wrapped = text := by
  rw [invokedAt?]
  split
  · rename_i hsite
    simp [hsite]
  · rename_i hsite
    simp [hsite]

theorem invokedAt?_congr {files files' : FileTree} (hframe : files.frame = files'.frame) :
    invokedAt? s files = invokedAt? s files' := by
  funext place e
  rw [invokedAt?, invokedAt?, FileTree.site_congr hframe]

/-- What becomes of the files when the wrapper of the entry point, if it has one, is written. -/
def Writes (s : Stage) (e : EntryPoint) (files files' : FileTree) : Prop :=
  match e.wrapped? with
  | none => files' = files
  | some wrapped =>
    files.store (e.wrapperPath s) (Wrapper.file (invoked s wrapped)) = .ok files'

theorem writes_of_writeWrapper {e : EntryPoint} {files' : FileTree} {wrapper? : Option Path}
    {log : List Event} (h : e.writeWrapper s files = .ok (files', wrapper?, log)) :
    e.Writes s files files' ∧ wrapper? = e.wrapped?.map fun _ => e.wrapperPath s := by
  cases hwrapped : e.wrapped? with
  | none =>
    simp only [writeWrapper, hwrapped] at h
    cases h
    refine ⟨?_, rfl⟩
    rw [Writes, hwrapped]
  | some wrapped =>
    simp only [writeWrapper, hwrapped] at h
    split at h
    · rename_i stored hwrite
      cases h
      refine ⟨?_, rfl⟩
      rw [Writes, hwrapped]
      exact Wrapper.write_eq_ok_iff.mp hwrite
    · cases h

theorem Writes.frame {e : EntryPoint} {files' : FileTree} (h : e.Writes s files files') :
    files'.frame = files.frame := by
  rw [Writes] at h
  split at h
  · rw [h]
  · exact FileTree.frame_store h

theorem Writes.node? {e : EntryPoint} {files' : FileTree} (h : e.Writes s files files')
    (place : Location) :
    files'.node? place =
      ((invokedAt? s files place e).map fun text => .file (Wrapper.file text)).or
        (files.node? place) := by
  rw [Writes] at h
  split at h
  · rename_i hwrapped
    simp [h, invokedAt?, hwrapped]
  · rename_i wrapped hwrapped
    obtain ⟨site, hsite, _, hnode⟩ := FileTree.store_spec h
    rw [hnode]
    by_cases hplace : place = site
    · simp [hplace, invokedAt?, hsite, hwrapped]
    · simp [hplace, invokedAt?, hsite, Ne.symm hplace]

def isWritable (e : EntryPoint) (s : Stage) (files : FileTree) : Bool :=
  (e.writeWrapper s files).isOk

theorem isWritable_iff {e : EntryPoint} :
    e.isWritable s files = true ↔ (e.wrapped?.isSome → files.Takes (e.wrapperPath s)) := by
  cases hwrapped : e.wrapped? with
  | none => simp [isWritable, writeWrapper, hwrapped, Except.isOk, Except.toBool]
  | some wrapped =>
    have hwrite : files.Takes (e.wrapperPath s) ↔ ∃ files',
        Wrapper.write files (e.wrapperPath s) (invoked s wrapped) = .ok files' := by
      simp only [Wrapper.write_eq_ok_iff]
      exact FileTree.takes_iff
    simp only [isWritable, writeWrapper, hwrapped, Option.isSome_some, true_imp_iff, hwrite]
    cases Wrapper.write files (e.wrapperPath s) (invoked s wrapped) with
    | error f => simp [Except.isOk, Except.toBool]
    | ok files' => simp [Except.isOk, Except.toBool]

theorem isWritable_congr {files' : FileTree} (hframe : files.frame = files'.frame)
    (e : EntryPoint) : e.isWritable s files = e.isWritable s files' := by
  rw [Bool.eq_iff_iff, isWritable_iff, isWritable_iff, FileTree.takes_congr hframe]

end EntryPoint

namespace Run
open EntryPoint (invokedAt? reported)

/-- What comes of writing the wrappers of entry points in order, and the files that are left. -/
inductive Writing (s : Stage) :
    FileTree → List EntryPoint → Except RunFailure (List Entry) → FileTree → Prop where
  | done (files : FileTree) : Writing s files [] (.ok []) files
  | stopped {files : FileTree} {e : EntryPoint} (hstuck : e.isWritable s files = false)
      (f : Failure) (rest : List EntryPoint) :
      Writing s files (e :: rest) (.error (.wrapperUnwritten e.wrapperName f)) files
  | wrote {files files' left : FileTree} {e : EntryPoint} {rest : List EntryPoint}
      {outcome : Except RunFailure (List Entry)} (hwritable : e.isWritable s files = true)
      (hwrites : e.Writes s files files') (hrest : Writing s files' rest outcome left) :
      Writing s files (e :: rest) (outcome.map (reported s e :: ·)) left

theorem writing_writeAll (s : Stage) (files : FileTree) (es : List EntryPoint) :
    Writing s files es (writeAll s files es).outcome (writeAll s files es).files := by
  induction es generalizing files with
  | nil => exact .done files
  | cons e rest ih =>
    cases hwrite : e.writeWrapper s files with
    | error f =>
      have hstuck : e.isWritable s files = false := by
        rw [EntryPoint.isWritable, hwrite]
        rfl
      simp only [writeAll, hwrite]
      exact .stopped hstuck f rest
    | ok written =>
      obtain ⟨files', wrapper?, log⟩ := written
      obtain ⟨hwrites, rfl⟩ := EntryPoint.writes_of_writeWrapper hwrite
      have hwritable : e.isWritable s files = true := by
        rw [EntryPoint.isWritable, hwrite]
        rfl
      simp only [writeAll, hwrite]
      exact .wrote hwritable hwrites (ih files')

def written (s : Stage) (files : FileTree) (es : List EntryPoint) : List EntryPoint :=
  es.takeWhile (·.isWritable s files)

theorem written_cons {e : EntryPoint} (h : e.isWritable s files = true) (rest : List EntryPoint) :
    written s files (e :: rest) = e :: written s files rest :=
  List.takeWhile_cons_of_pos h

theorem written_stuck {e : EntryPoint} (h : e.isWritable s files = false)
    (rest : List EntryPoint) : written s files (e :: rest) = [] :=
  List.takeWhile_cons_of_neg (by simp [h])

theorem written_append {before : List EntryPoint}
    (h : ∀ b ∈ before, b.isWritable s files = true) (rest : List EntryPoint) :
    written s files (before ++ rest) = before ++ written s files rest :=
  List.takeWhile_append_of_pos h

theorem written_congr {files' : FileTree} (hframe : files.frame = files'.frame)
    (es : List EntryPoint) : written s files es = written s files' es := by
  rw [written, written, funext (EntryPoint.isWritable_congr hframe)]

variable {es : List EntryPoint} {outcome : Except RunFailure (List Entry)} {left : FileTree}

theorem frame_writing (h : Writing s files es outcome left) : left.frame = files.frame := by
  induction h with
  | done files => rfl
  | stopped hstuck f rest => rfl
  | wrote hwritable hwrites hrest ih => exact ih.trans hwrites.frame

/-- Of the wrappers that are written to one location the last is there in the end. -/
theorem node?_writing (h : Writing s files es outcome left) (place : Location) :
    left.node? place =
      (((written s files es).filterMap (invokedAt? s files place)).getLast?.map fun text =>
        .file (Wrapper.file text)).or (files.node? place) := by
  induction h with
  | done files => rfl
  | stopped hstuck f rest =>
    rw [written_stuck hstuck]
    rfl
  | @wrote files files' left e rest outcome hwritable hwrites hrest ih =>
    -- The wrapper changed no directory, so the rest goes where it would have gone without it.
    have hframe := hwrites.frame
    rw [ih, written_congr hframe, EntryPoint.invokedAt?_congr hframe, hwrites.node?,
      written_cons hwritable, List.filterMap_cons]
    cases hhere : invokedAt? s files place e with
    | none => rfl
    | some text =>
      rw [List.getLast?_cons]
      cases ((written s files rest).filterMap (invokedAt? s files place)).getLast? <;> rfl

/-- Either every wrapper is written, or the first that cannot be stops the rest. -/
theorem outcome_writing (h : Writing s files es outcome left) :
    (outcome = .ok (es.map (reported s)) ∧ ∀ e ∈ es, e.isWritable s files = true) ∨
      ∃ before e after f, es = before ++ e :: after ∧
        (∀ b ∈ before, b.isWritable s files = true) ∧ e.isWritable s files = false ∧
          outcome = .error (.wrapperUnwritten e.wrapperName f) := by
  induction h with
  | done files => exact .inl ⟨rfl, by simp⟩
  | @stopped files e hstuck f rest =>
    exact .inr ⟨[], e, rest, f, rfl, by simp, hstuck, rfl⟩
  | @wrote files files' left e rest outcome hwritable hwrites hrest ih =>
    simp only [EntryPoint.isWritable_congr hwrites.frame] at ih
    rcases ih with ⟨rfl, hall⟩ | ⟨before, stuck, after, f, rfl, hbefore, hstuck, rfl⟩
    · exact .inl ⟨rfl, List.forall_mem_cons.mpr ⟨hwritable, hall⟩⟩
    · exact .inr ⟨e :: before, stuck, after, f, rfl,
        List.forall_mem_cons.mpr ⟨hwritable, hbefore⟩, hstuck, rfl⟩

theorem writing_ok {entries : List Entry} (h : Writing s files es (.ok entries) left) :
    entries = es.map (reported s) ∧ ∀ e ∈ es, e.isWritable s files = true := by
  rcases outcome_writing h with ⟨hok, hall⟩ | ⟨_, _, _, _, _, _, _, herror⟩
  · exact ⟨Except.ok.inj hok, hall⟩
  · cases herror

theorem written_of_all (h : ∀ e ∈ es, e.isWritable s files = true) : written s files es = es := by
  simpa [written] using written_append h []

end Run
end EntryPoints
