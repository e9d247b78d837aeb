import EntryPoints.Proofs.Report

/-!
The entry points of a run do not bear on each other. Each is settled on the files as they were, so
no entry point sees what became of another, nor a wrapper that this run writes. What a run reports
of an entry point is what a run over that entry point alone reports.
-/
namespace EntryPoints

abbrev Names := Text × Text

/-- Entry points stand in the order of their applications, and those of one application in the order
of their own names. -/
def Names.Precedes (a b : Names) : Prop := a.1 < b.1 ∨ (a.1 = b.1 ∧ a.2 < b.2)

def EntryPoint.names (e : EntryPoint) : Names := (e.app, e.name)

def Entry.names (e : Entry) : Names := (e.app, e.name)

namespace Manifest

variable {m : Manifest}

def Declares (m : Manifest) (app name command : Text) (adapter : Adapter) : Prop :=
  ∃ a, m.apps.find? app = some a ∧ a.adapter = adapter ∧ a.commands.find? name = some command

def only (app name command : Text) (adapter : Adapter) : Manifest :=
  ⟨.ofList [(app, ⟨adapter, .ofList [(name, command)]⟩)]⟩

theorem entryPoints_only (app name command : Text) (adapter : Adapter) :
    (only app name command adapter).entryPoints = [(.declare app name command, adapter)] := rfl

theorem mem_entryPoints_iff {ea : EntryPoint × Adapter} :
    ea ∈ m.entryPoints ↔ ∃ app name command adapter,
      m.Declares app name command adapter ∧ ea = (.declare app name command, adapter) := by
  constructor
  · intro h
    obtain ⟨⟨app, a⟩, ha, hea⟩ := List.mem_flatMap.mp h
    obtain ⟨⟨name, command⟩, hcommand, rfl⟩ := List.mem_map.mp hea
    have happ := Table.mem_entries_iff.mp ha
    exact ⟨app, name, command, a.adapter, ⟨a, happ, rfl, Table.mem_entries_iff.mp hcommand⟩, rfl⟩
  · rintro ⟨app, name, command, adapter, ⟨a, ha, rfl, hcommand⟩, rfl⟩
    apply List.mem_flatMap.mpr
    refine ⟨(app, a), Table.mem_entries_iff.mpr ha, ?_⟩
    exact List.mem_map.mpr ⟨(name, command), Table.mem_entries_iff.mpr hcommand, rfl⟩

theorem ordered_entryPoints (m : Manifest) :
    m.entryPoints.Pairwise fun a b => a.1.names.Precedes b.1.names := by
  rw [entryPoints, List.pairwise_flatMap]
  constructor
  · intro app _
    rw [List.pairwise_map]
    apply app.2.commands.ordered.imp
    intro a b hlt
    exact .inr ⟨rfl, hlt⟩
  · apply m.apps.ordered.imp
    intro app app' hlt a ha b hb
    obtain ⟨_, _, rfl⟩ := List.mem_map.mp ha
    obtain ⟨_, _, rfl⟩ := List.mem_map.mp hb
    exact .inl hlt

end Manifest

namespace Run
open EntryPoint (alone reported)

variable {s : Stage} {files : FileTree} {m : Manifest}

def AllSettle (s : Stage) (files : FileTree) (m : Manifest) : Prop :=
  ∀ ea ∈ m.entryPoints, (alone s files ea).outcome.isOk = true

theorem not_allSettle {ea : EntryPoint × Adapter} {f : Failure}
    (h : FirstUnsettled s files m.entryPoints ea f) : ¬ AllSettle s files m := by
  intro hall
  obtain ⟨before, after, hsplit, _, hstuck⟩ := h
  have hok := hall ea (by simp [hsplit])
  rw [hstuck] at hok
  cases hok

theorem settleAll_ok_iff :
    (∃ settled, (settleAll s files m.entryPoints).1 = .ok settled) ↔ AllSettle s files m := by
  rcases ofManifest_cases s files m with ⟨ea, f, hfirst, herror, _⟩ | ⟨hall, hok, _⟩
  · simp [herror, not_allSettle hfirst]
  · simp only [hok, Except.ok.injEq, exists_eq', true_iff]
    exact hall

theorem unsettled_iff :
    (∃ app name f, (ofManifest s files m).outcome = .error (.unsettled app name f)) ↔
      ¬ AllSettle s files m := by
  rcases ofManifest_cases s files m with ⟨ea, f, hfirst, _, houtcome, _⟩ | ⟨hall, _, hwriting⟩
  · rw [houtcome]
    exact ⟨fun _ => not_allSettle hfirst, fun _ => ⟨_, _, f, rfl⟩⟩
  · refine ⟨?_, fun hnot => absurd hall hnot⟩
    rintro ⟨app, name, f, houtcome⟩
    rw [houtcome] at hwriting
    rcases outcome_writing hwriting with ⟨hok, _⟩ | ⟨_, _, _, _, _, _, _, herror⟩
    · cases hok
    · cases herror

theorem outcome_only {app name command : Text} {adapter : Adapter}
    (hok : (alone s files (.declare app name command, adapter)).outcome.isOk = true)
    (hwritable : (alone s files (.declare app name command, adapter)).entry.isWritable s files =
      true) :
    (ofManifest s files (.only app name command adapter)).outcome =
      .ok [reported s (alone s files (.declare app name command, adapter)).entry] := by
  have hsettles : AllSettle s files (.only app name command adapter) := by
    intro ea hea
    rw [Manifest.entryPoints_only, List.mem_singleton] at hea
    rw [hea]
    exact hok
  rcases ofManifest_cases s files (.only app name command adapter) with
    ⟨ea, f, hfirst, _⟩ | ⟨_, _, hwriting⟩
  · exact absurd hsettles (not_allSettle hfirst)
  · rcases outcome_writing hwriting with ⟨hall, _⟩ | ⟨before, e, after, f, hsplit, _, hstuck, _⟩
    · exact hall
    · have he : e ∈ (Manifest.only app name command adapter).settled s files := by simp [hsplit]
      obtain rfl := List.mem_singleton.mp he
      rw [alone] at hwritable
      rw [hwritable] at hstuck
      cases hstuck

/-- What a run reports: every declared entry point once, in order, each as it is by itself. -/
structure ReportsEach (s : Stage) (files : FileTree) (m : Manifest) (entries : List Entry) :
    Prop where
  settled : entries = m.entryPoints.map fun ea => reported s (alone s files ea).entry
  ordered : entries.Pairwise fun a b => a.names.Precedes b.names
  declared (app name : Text) : (∃ entry ∈ entries, entry.names = (app, name)) ↔
    ∃ command adapter, m.Declares app name command adapter
  separate (app name command : Text) (adapter : Adapter) :
    m.Declares app name command adapter → ∃ entry ∈ entries, entry.names = (app, name) ∧
      (ofManifest s files (.only app name command adapter)).outcome = .ok [entry]

theorem names_reported (ea : EntryPoint × Adapter) :
    (reported s (alone s files ea).entry).names = ea.1.names := by
  obtain ⟨happ, hname⟩ := EntryPoint.alone_names s files ea
  exact Prod.ext happ hname

theorem reportsEach_of_ok {entries : List Entry}
    (h : (ofManifest s files m).outcome = .ok entries) : ReportsEach s files m entries := by
  obtain ⟨hoks, hwriting⟩ := ofManifest_ok h
  obtain ⟨hentries, hwritable⟩ := writing_ok hwriting
  have hsettled : entries = m.entryPoints.map fun ea => reported s (alone s files ea).entry := by
    rw [hentries, Manifest.settled, List.map_map]
    rfl
  have hdeclared : ∀ app name command adapter, m.Declares app name command adapter →
      reported s (alone s files (.declare app name command, adapter)).entry ∈ entries := by
    intro app name command adapter hdeclares
    rw [hsettled]
    exact List.mem_map_of_mem (Manifest.mem_entryPoints_iff.mpr ⟨app, name, command, adapter,
      hdeclares, rfl⟩)
  refine ⟨hsettled, ?_, ?_, ?_⟩
  · rw [hsettled, List.pairwise_map]
    simp only [names_reported]
    exact m.ordered_entryPoints
  · intro app name
    constructor
    · rintro ⟨entry, hentry, hnames⟩
      rw [hsettled] at hentry
      obtain ⟨ea, hea, rfl⟩ := List.mem_map.mp hentry
      obtain ⟨app', name', command, adapter, hdeclares, rfl⟩ := Manifest.mem_entryPoints_iff.mp hea
      rw [names_reported] at hnames
      cases hnames
      exact ⟨command, adapter, hdeclares⟩
    · rintro ⟨command, adapter, hdeclares⟩
      exact ⟨_, hdeclared app name command adapter hdeclares, names_reported _⟩
  · intro app name command adapter hdeclares
    -- Alone it settles as in the run, and its wrapper had a place there, so it has one alone.
    have hea := Manifest.mem_entryPoints_iff.mpr ⟨app, name, command, adapter, hdeclares, rfl⟩
    refine ⟨_, hdeclared app name command adapter hdeclares, names_reported _, ?_⟩
    exact outcome_only (hoks _ hea) (hwritable _ (List.mem_map_of_mem hea))

/-- The entry points of a run against each of them by itself, on the files as they were. -/
structure Independent (s : Stage) (files : FileTree) (m : Manifest) : Prop where
  settles : (∃ settled, (settleAll s files m.entryPoints).1 = .ok settled) ↔ AllSettle s files m
  fails : (∃ app name f, (ofManifest s files m).outcome = .error (.unsettled app name f)) ↔
    ¬ AllSettle s files m
  stops : ¬ AllSettle s files m → ∃ ea f, FirstUnsettled s files m.entryPoints ea f ∧
    (ofManifest s files m).outcome = .error (.unsettled ea.1.app ea.1.name f) ∧
      (ofManifest s files m).files = files
  reports (entries : List Entry) :
    (ofManifest s files m).outcome = .ok entries → ReportsEach s files m entries

/-- A run gets past settling exactly if every entry point settles by itself, and then reports each
as it is by itself. Otherwise it ends with the first that does not settle, and leaves the files as
they were. -/
theorem independent_ofManifest (s : Stage) (files : FileTree) (m : Manifest) :
    Independent s files m := by
  refine ⟨settleAll_ok_iff, unsettled_iff, ?_, fun entries => reportsEach_of_ok⟩
  intro hnot
  rcases ofManifest_cases s files m with ⟨ea, f, hfirst, _, houtcome, hfiles⟩ | ⟨hall, _⟩
  · exact ⟨ea, f, hfirst, houtcome, hfiles⟩
  · exact absurd hall hnot

end Run
end EntryPoints
