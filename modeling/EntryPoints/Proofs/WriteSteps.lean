import EntryPoints.Proofs.Store
import EntryPoints.Wrapper

/-!
What writing a wrapper does to the tree. A store puts bytes and permission bits in their place at
once, while a file system fills a file and sets its bits afterwards, and might be stopped between
the two. It is not, for where a file can be filled its bits can be set (`writeInSteps_eq`). So a
write changes the one file that its path leads to, or nothing (`writesExactly`).
-/
namespace EntryPoints

namespace FileTree

variable {files files' : FileTree} {p : Path} {f : File}

def modeAt (files : FileTree) (p : Path) (fresh : Nat) : Nat :=
  match files.lookup p with
  | .ok (.file f) => f.mode
  | _ => fresh

/-- The tree in which the path leads to a file with these bytes. A file that was there keeps its
permission bits, and one that is new has the bits `fresh`. -/
def fill (files : FileTree) (p : Path) (bytes : List UInt8) (fresh : Nat) :
    Except Cause FileTree :=
  files.store p ⟨bytes, files.modeAt p fresh⟩

/-- The tree in which the file that the path leads to has these permission bits. Directories are not
told apart by theirs. -/
def setMode (files : FileTree) (p : Path) (mode : Nat) : Except Cause FileTree :=
  match files.locate p with
  | .error cause => .error cause
  | .ok place =>
    match files.node? place, place.getLast? with
    | some (.file f), some name => .ok (files.put place.dropLast name (.file ⟨f.bytes, mode⟩))
    | _, _ => .ok files

/-- Why a file cannot be stored does not hang on the file. -/
theorem store_error {cause : Cause} (h : files.store p f = .error cause) (g : File) :
    files.store p g = .error cause := by
  unfold store at h ⊢
  split
  · rename_i htarget
    simpa [htarget] using h
  · rename_i htarget
    simp [htarget] at h
  · rename_i place htarget
    simp only [htarget] at h
    split
    · rename_i hold hlast
      simp [hold, hlast] at h
    · split at h
      · cases h
      · exact h

theorem locate_of_store (h : files.store p f = .ok files') {place : Location}
    (hsite : files.site p = some place) (hnode : files'.node? place = some (.file f)) :
    files'.locate p = .ok place := by
  have hsite' : files'.site p = some place := by rw [site_congr (frame_store h), hsite]
  exact locate_eq_ok_iff.mpr ⟨destination_reach_of_site hsite', by simp [hnode]⟩

/-- Setting the bits of a file that is there does not fail, and changes nothing but them. -/
theorem setMode_of_locate {place : Location} (hlocate : files.locate p = .ok place)
    (hnode : files.node? place = some (.file f)) (mode : Nat) :
    ∃ files', files.setMode p mode = .ok files' ∧ ∀ k, files'.node? k =
      if k = place then some (.file ⟨f.bytes, mode⟩) else files.node? k := by
  have hplace : place ≠ [] := by
    rintro rfl
    cases hnode
  obtain ⟨parent, name, rfl, hname, hparent⟩ := files.housed hplace hnode
  have haccepts : files.Accepts parent name := ⟨hname, hparent, by simp [hnode]⟩
  refine ⟨files.put parent name (.file ⟨f.bytes, mode⟩), ?_, node?_put haccepts⟩
  simp only [setMode, hlocate, hnode, List.getLast?_concat, List.dropLast_concat]

/-- Filling a file and then setting its bits is to store it. -/
theorem fill_setMode (bytes : List UInt8) (mode fresh : Nat)
    (h : files.store p ⟨bytes, mode⟩ = .ok files') :
    ∃ filled, files.fill p bytes fresh = .ok filled ∧ filled.setMode p mode = .ok files' := by
  obtain ⟨place, hsite, hfree, hnode⟩ := store_spec h
  obtain ⟨filled, hfill⟩ := takes_iff.mp ⟨place, hsite, hfree⟩
  obtain ⟨place', hsite', _, hfilled⟩ := store_spec hfill
  obtain rfl : place = place' := Option.some.inj (hsite.symm.trans hsite')
  have hthere : filled.node? place = some (.file ⟨bytes, files.modeAt p fresh⟩) := by
    rw [hfilled, if_pos rfl]
  obtain ⟨set, hset, hbits⟩ := setMode_of_locate (locate_of_store hfill hsite hthere) hthere mode
  have hsame : set = files' := by
    apply ext_node?
    intro k
    rw [hbits, hnode, hfilled]
    split <;> rfl
  exact ⟨filled, hfill, hsame ▸ hset⟩

end FileTree

namespace Wrapper

variable {files files' : FileTree} {path : Path} {invoked : Text}

/-- A write step by step, where new files have the bits `fresh`: what comes of it, and the tree that
it leaves. -/
def writeInSteps (files : FileTree) (path : Path) (invoked : Text) (fresh : Nat) :
    Except Failure Unit × FileTree :=
  match files.fill path (Text.Utf8.encode (script invoked)) fresh with
  | .error cause => (.error (.io path cause), files)
  | .ok filled =>
    match filled.setMode path 0o755 with
    | .error cause => (.error (.io path cause), filled)
    | .ok done => (.ok (), done)

theorem write_eq_ok_iff :
    write files path invoked = .ok files' ↔ files.store path (file invoked) = .ok files' := by
  rw [write]
  cases files.store path (file invoked) with
  | ok stored =>
    constructor
    · rintro ⟨⟩
      rfl
    · rintro ⟨⟩
      rfl
  | error cause => exact iff_of_false (by rintro ⟨⟩) (by rintro ⟨⟩)

theorem write_eq_error_iff {f : Failure} :
    write files path invoked = .error f ↔
      ∃ cause, files.store path (file invoked) = .error cause ∧ f = .io path cause := by
  rw [write]
  cases files.store path (file invoked) with
  | ok stored => exact iff_of_false (by rintro ⟨⟩) (by rintro ⟨_, ⟨⟩, _⟩)
  | error cause =>
    constructor
    · intro h
      cases h
      exact ⟨cause, rfl, rfl⟩
    · rintro ⟨_, hcause, rfl⟩
      cases hcause
      rfl

/-- The steps come to what the write does at once, and no failure finds the tree half changed. -/
theorem writeInSteps_eq (files : FileTree) (path : Path) (invoked : Text) (fresh : Nat) :
    writeInSteps files path invoked fresh =
      match write files path invoked with
      | .ok files' => (.ok (), files')
      | .error f => (.error f, files) := by
  cases hwrite : write files path invoked with
  | ok files' =>
    obtain ⟨filled, hfill, hset⟩ :=
      FileTree.fill_setMode _ _ fresh (write_eq_ok_iff.mp hwrite)
    simp only [writeInSteps, hfill, hset]
  | error f =>
    obtain ⟨cause, hstore, rfl⟩ := write_eq_error_iff.mp hwrite
    have hfill : files.fill path (Text.Utf8.encode (script invoked)) fresh = .error cause :=
      FileTree.store_error hstore _
    simp only [writeInSteps, hfill]

theorem isExecutable_file (invoked : Text) : (file invoked).isExecutable = true := by
  simp [File.isExecutable, file]

/-- In `files'` the path leads to the wrapper, at `place`. Only that changed, and it was no
directory and no link before, if it was anything. -/
structure Written (files files' : FileTree) (path : Path) (invoked : Text) (place : Location) :
    Prop where
  locate : files'.locate path = .ok place
  node : files'.node? place = some (.file ⟨Text.Utf8.encode (script invoked), 0o755⟩)
  read : files'.read path = .ok (Text.Utf8.encode (script invoked))
  isExecutable : files'.isExecutable path = true
  replaced : files.node? place = none ∨ ∃ old, files.node? place = some (.file old)
  others : ∀ k, k ≠ place → files'.node? k = files.node? k

theorem written_of_store (h : files.store path (file invoked) = .ok files') :
    ∃ place, Written files files' path invoked place := by
  obtain ⟨place, hsite, hfree, hnode⟩ := FileTree.store_spec h
  have hthere : files'.node? place = some (.file (file invoked)) := by rw [hnode, if_pos rfl]
  have hlocate := FileTree.locate_of_store h hsite hthere
  have hlookup : files'.lookup path = .ok (.file (file invoked)) := by
    simp [FileTree.lookup, hlocate, hthere, bind, Except.bind]
  refine ⟨place, hlocate, hthere, ?_, ?_, ?_, ?_⟩
  · simp [FileTree.read, hlookup, bind, Except.bind, file]
  · rw [FileTree.isExecutable, hlookup]
    exact isExecutable_file invoked
  · cases hold : files.node? place with
    | none => exact .inl rfl
    | some old =>
      obtain ⟨f, rfl⟩ := FileTree.file_of_frame_eq_none hfree hold
      exact .inr ⟨f, rfl⟩
  · intro k hk
    rw [hnode, if_neg hk]

/-- What comes of writing a wrapper, at once or in steps. -/
structure WritesExactly (files : FileTree) (path : Path) (invoked : Text) : Prop where
  ok_iff : (∃ files', write files path invoked = .ok files') ↔ files.Takes path
  written : ∀ files', write files path invoked = .ok files' →
    ∃ place, Written files files' path invoked place
  steps_ok_iff : ∀ fresh left, writeInSteps files path invoked fresh = (.ok (), left) ↔
    write files path invoked = .ok left
  /-- A failure leaves the tree that was there. -/
  steps_error_iff : ∀ fresh f left, writeInSteps files path invoked fresh = (.error f, left) ↔
    write files path invoked = .error f ∧ left = files

/-- A wrapper is written if and only if its path leads to a free name or to a file. Then the path
leads to its script, which all may execute, and nothing else is changed; otherwise nothing is. -/
theorem writesExactly (files : FileTree) (path : Path) (invoked : Text) :
    WritesExactly files path invoked where
  ok_iff := by
    simp only [write_eq_ok_iff]
    exact FileTree.takes_iff.symm
  written := by
    intro files' h
    exact written_of_store (write_eq_ok_iff.mp h)
  steps_ok_iff := by
    intro fresh left
    rw [writeInSteps_eq]
    cases write files path invoked <;> simp
  steps_error_iff := by
    intro fresh f left
    rw [writeInSteps_eq]
    cases write files path invoked with
    | ok files' => simp
    | error cause => simp [eq_comm]

end Wrapper
end EntryPoints
