import Mathlib.Data.List.Basic
import EntryPoints.Proofs.ManifestDocuments
import EntryPoints.Proofs.PathTexts

/-!
What a run tells and what it reports. The notices of an entry point are told right after it is
settled, and reported once the run has succeeded. Both lists are the same: a run succeeds only if no
notice is fatal, and until it fails it has told every other one.
-/
namespace EntryPoints

theorem shown_append (verbose : Bool) (log more : List Event) :
    shown verbose (log ++ more) = shown verbose log ++ shown verbose more := List.filter_append ..

theorem shown_eq_nil {log : List Event} (h : ∀ event ∈ log, event.level ≠ .warning) :
    shown false log = [] := by
  simpa [shown] using h

theorem firstFailure?_eq_none_iff {ns : List Notice} :
    firstFailure? ns = none ↔ ∀ n ∈ ns, n.isFatal = false := by
  simp [firstFailure?, Notice.isFatal_eq_isSome_failure?]

theorem advisories_eq_self {ns : List Notice} (h : firstFailure? ns = none) :
    advisories ns = ns := by
  rw [advisories, List.filter_eq_self]
  intro n hn
  rw [firstFailure?_eq_none_iff.mp h n hn]
  rfl

namespace Event

/-- What is shown of an event: its level, its particulars and its message. -/
def parts (e : Event) : Level × List (String × Text) × Text := (e.level, e.fields, e.message)

def warning (app name : Text) (n : Notice) : Level × List (String × Text) × Text :=
  (.warning, [("app", Text.quoted app), ("command_name", Text.quoted name)], n.message)

theorem map_parts {α : Type} (xs : List α) (app name : α → Text) (notices : α → List Notice) :
    (xs.flatMap fun x => (notices x).map (.advised (app x) (name x))).map parts =
      xs.flatMap fun x => (notices x).map (warning (app x) (name x)) := by
  rw [List.map_flatMap]
  simp only [List.map_map]
  rfl

end Event

namespace EntryPoint

variable {e : EntryPoint} {p : Policy} {s : Stage} {files : FileTree}

theorem level_adapt (e : EntryPoint) (s : Stage) (files : FileTree) :
    ∀ event ∈ (e.adapt s files).log, event.level ≠ .warning := by
  unfold adapt
  repeat' split
  all_goals simp [Event.level]

theorem level_conclude (e : EntryPoint) (p : Policy) (s : Stage) (files : FileTree) :
    ∀ event ∈ (e.conclude p s files).log, event.level ≠ .warning := by
  unfold conclude settled
  repeat' split
  all_goals simp [Event.level]

theorem level_settle (e : EntryPoint) (p : Policy) (s : Stage) (files : FileTree) :
    ∀ event ∈ (e.settle p s files).log, event.level ≠ .warning := by
  unfold settle
  split
  · simp
  · split
    · dsimp only
      split
      · exact e.level_adapt s files
      · intro event hevent
        rcases List.mem_append.mp hevent with hadapt | hconclude
        · exact e.level_adapt s files event hadapt
        · exact level_conclude _ p s files event hconclude
    · exact e.level_conclude p s files

theorem quiet_of_concluding {outcome : Except Failure Text} {settled : EntryPoint}
    (h : Concluding e p s files outcome settled) (hquiet : firstFailure? e.notices = none) :
    firstFailure? settled.notices = none := by
  rw [firstFailure?_eq_none_iff] at hquiet ⊢
  cases h with
  | wrapped _ _ =>
    intro n hn
    rcases List.mem_append.mp hn with hold | hnew
    · exact hquiet n hold
    · split at hnew
      · cases hnew
      · obtain rfl := List.mem_singleton.mp hnew
        rfl
  | refused _ _ => exact hquiet
  | direct _ _ => exact hquiet
  | stuck _ _ => exact hquiet

theorem quiet_of_settling {settled : EntryPoint} {text : Text}
    (h : Settling e p s files (.ok text) settled) (hquiet : firstFailure? e.notices = none) :
    firstFailure? settled.notices = none := by
  cases h with
  | kept _ => exact hquiet
  | adapted _ _ hform hfatal hconcluding =>
    apply quiet_of_concluding hconcluding
    rw [firstFailure?_eq_none_iff] at hquiet hfatal ⊢
    exact List.forall_mem_append.mpr ⟨hquiet, hfatal⟩
  | verbatim _ _ hconcluding => exact quiet_of_concluding hconcluding hquiet

/-- What is told of a declared entry point once it is settled by itself, or cannot be: its notices
in order, but for the fatal ones. -/
def told (s : Stage) (files : FileTree) (ea : EntryPoint × Adapter) : List Event :=
  (advisories (alone s files ea).entry.notices).map (.advised ea.1.app ea.1.name)

theorem shown_told (s : Stage) (files : FileTree) (ea : EntryPoint × Adapter) :
    shown false (told s files ea) = told s files ea := by
  simp [shown, told, Event.level]

theorem told_of_ok {app name command : Text} {adapter : Adapter} {text : Text}
    (h : (alone s files (.declare app name command, adapter)).outcome = .ok text) :
    told s files (.declare app name command, adapter) =
      (alone s files (.declare app name command, adapter)).entry.notices.map
        (.advised app name) := by
  have hsettling := settling_settle (declare app name command) adapter.policy s files
  rw [alone] at h
  rw [h] at hsettling
  rw [told, alone, advisories_eq_self (quiet_of_settling hsettling rfl)]
  rfl

end EntryPoint

namespace Run
open EntryPoint (alone reported told)

variable {s : Stage} {files : FileTree} {m : Manifest}

theorem shown_settleOne (s : Stage) (files : FileTree) (ea : EntryPoint × Adapter) :
    shown false (settleOne s files ea.1 ea.2).2 = told s files ea := by
  obtain ⟨happ, hname⟩ := EntryPoint.alone_names s files ea
  have hlog : (settleOne s files ea.1 ea.2).2 = (alone s files ea).log ++ told s files ea := by
    rw [told, ← happ, ← hname, alone, settleOne]
    split <;> rfl
  have hsilent : shown false (alone s files ea).log = [] :=
    shown_eq_nil (EntryPoint.level_settle ea.1 ea.2.policy s files)
  rw [hlog, shown_append, hsilent, EntryPoint.shown_told]
  rfl

theorem settleAll_append {before : List (EntryPoint × Adapter)}
    (h : ∀ ea ∈ before, (alone s files ea).outcome.isOk = true)
    (rest : List (EntryPoint × Adapter)) :
    settleAll s files (before ++ rest) =
      ((settleAll s files rest).1.map (before.map (fun ea => (alone s files ea).entry) ++ ·),
        before.flatMap (fun ea => (settleOne s files ea.1 ea.2).2) ++
          (settleAll s files rest).2) := by
  -- On the entry points that settle, each of which hands on to those behind it.
  induction before with
  | nil =>
    rw [List.nil_append]
    refine Prod.ext ?_ rfl
    cases (settleAll s files rest).1 <;> rfl
  | cons ea before ih =>
    obtain ⟨hea, hbefore⟩ := List.forall_mem_cons.mp h
    cases houtcome : (alone s files ea).outcome with
    | error f =>
      rw [houtcome] at hea
      cases hea
    | ok text =>
      have hone : settleOne s files ea.1 ea.2 =
          (.ok (alone s files ea).entry, (settleOne s files ea.1 ea.2).2) :=
        Prod.ext (settleOne_of_ok houtcome) rfl
      rw [List.cons_append, settleAll, hone, ih hbefore]
      refine Prod.ext ?_ (List.append_assoc ..).symm
      cases (settleAll s files rest).1 <;> rfl

theorem settleAll_stuck {ea : EntryPoint × Adapter} {f : Failure}
    (h : (alone s files ea).outcome = .error f) (rest : List (EntryPoint × Adapter)) :
    settleAll s files (ea :: rest) =
      (.error (.unsettled ea.1.app ea.1.name f), (settleOne s files ea.1 ea.2).2) := by
  have hone : settleOne s files ea.1 ea.2 =
      (.error (.unsettled ea.1.app ea.1.name f), (settleOne s files ea.1 ea.2).2) :=
    Prod.ext (settleOne_of_error h) rfl
  rw [settleAll, hone]

theorem shown_flatMap_settleOne (eas : List (EntryPoint × Adapter)) :
    shown false (eas.flatMap fun ea => (settleOne s files ea.1 ea.2).2) =
      eas.flatMap (told s files) := by
  rw [shown, List.filter_flatMap]
  congr 1
  funext ea
  exact shown_settleOne s files ea

theorem shown_writeAll (s : Stage) (files : FileTree) (es : List EntryPoint) :
    shown false (writeAll s files es).log = [] := by
  induction es generalizing files with
  | nil => rfl
  | cons e rest ih =>
    rw [writeAll]
    cases hwrite : e.writeWrapper s files with
    | error f => rfl
    | ok written =>
      obtain ⟨files', wrapper?, log⟩ := written
      have hlog : shown false log = [] := by
        rw [EntryPoint.writeWrapper] at hwrite
        split at hwrite
        · cases hwrite
          rfl
        · dsimp only at hwrite
          split at hwrite
          · cases hwrite
            rfl
          · cases hwrite
      rw [shown_append, hlog, ih files']
      rfl

theorem shown_ofManifest (s : Stage) (files : FileTree) (m : Manifest) :
    shown false (ofManifest s files m).log = shown false (settleAll s files m.entryPoints).2 := by
  have hstart (n : Nat) (log : List Event) :
      shown false (.started n s.root s.placeholder s.search.reach :: log) = shown false log := rfl
  rw [ofManifest]
  dsimp only
  split
  · rename_i hall
    rw [hstart, hall]
  · rename_i hall
    simp only [List.cons_append, hstart, hall, shown_append, shown_writeAll, List.append_nil]

theorem shown_of_settled (h : ∀ ea ∈ m.entryPoints, (alone s files ea).outcome.isOk = true) :
    shown false (ofManifest s files m).log = m.entryPoints.flatMap (told s files) := by
  have hall := settleAll_append h []
  rw [List.append_nil] at hall
  rw [shown_ofManifest, hall, shown_append, shown_flatMap_settleOne]
  exact List.append_nil _

theorem shown_of_stuck {before after : List (EntryPoint × Adapter)} {ea : EntryPoint × Adapter}
    {f : Failure} (hsplit : m.entryPoints = before ++ ea :: after)
    (hbefore : ∀ b ∈ before, (alone s files b).outcome.isOk = true)
    (hstuck : (alone s files ea).outcome = .error f) :
    shown false (ofManifest s files m).log = (before ++ [ea]).flatMap (told s files) := by
  rw [shown_ofManifest, hsplit, settleAll_append hbefore, settleAll_stuck hstuck, shown_append,
    shown_flatMap_settleOne, shown_settleOne, List.flatMap_append, List.flatMap_singleton]

theorem shown_of_ok {entries : List Entry} (h : (ofManifest s files m).outcome = .ok entries) :
    shown false (ofManifest s files m).log =
      entries.flatMap fun e => e.notices.map (.advised e.app e.name) := by
  obtain ⟨hoks, _⟩ := ofManifest_ok h
  rw [shown_of_settled hoks, (reportsEach_of_ok h).settled, List.flatMap_map]
  -- Entry by entry: one that settled has no fatal notice, so its warnings are all its notices.
  apply List.flatMap_congr
  intro ea hea
  obtain ⟨app, name, command, adapter, _, rfl⟩ := Manifest.mem_entryPoints_iff.mp hea
  have hok := hoks _ hea
  have hnames : (reported s (alone s files (.declare app name command, adapter)).entry).names =
      (app, name) := names_reported (.declare app name command, adapter)
  cases houtcome : (alone s files (.declare app name command, adapter)).outcome with
  | error f =>
    rw [houtcome] at hok
    cases hok
  | ok text =>
    obtain ⟨happ, hname⟩ := Prod.mk.inj hnames
    rw [EntryPoint.told_of_ok houtcome, happ, hname]
    rfl

theorem exists_shown_ofManifest (s : Stage) (files : FileTree) (m : Manifest) :
    ∃ eas : List (EntryPoint × Adapter),
      shown false (ofManifest s files m).log = eas.flatMap (told s files) := by
  rcases ofManifest_cases s files m with ⟨ea, f, ⟨before, after, hsplit, hbefore, hstuck⟩, _⟩ |
    ⟨hoks, _⟩
  · exact ⟨before ++ [ea], shown_of_stuck hsplit hbefore hstuck⟩
  · exact ⟨m.entryPoints, shown_of_settled hoks⟩

theorem outcome_of_stuck {before after : List (EntryPoint × Adapter)} {ea : EntryPoint × Adapter}
    {f : Failure} (hsplit : m.entryPoints = before ++ ea :: after)
    (hbefore : ∀ b ∈ before, (alone s files b).outcome.isOk = true)
    (hstuck : (alone s files ea).outcome = .error f) :
    (ofManifest s files m).outcome = .error (.unsettled ea.1.app ea.1.name f) := by
  have hall := settleAll_append hbefore (ea :: after)
  rw [← hsplit, settleAll_stuck hstuck] at hall
  rw [ofManifest, hall]
  rfl

end Run

namespace CommandLine
open EntryPoint (alone told)

theorem exists_json {e : Entry} (h : ∀ path, e.wrapper? = some path → path.IsText) :
    ∃ item, e.json? = some item := by
  have hmembers : ∃ members, e.wrapperMembers? = some members := by
    unfold Entry.wrapperMembers?
    cases hwrapper : e.wrapper? with
    | none => exact ⟨[], rfl⟩
    | some path =>
      obtain ⟨t, rfl⟩ := Path.isText_iff.mp (h path hwrapper)
      have hread : Text.Utf8.strict? (Path.of t) = some t := Text.Utf8.strict?_encode t
      exact ⟨_, congrArg (Option.map _) hread⟩
  obtain ⟨members, hmembers⟩ := hmembers
  exact ⟨_, congrArg (Option.map _) hmembers⟩

/-- Without a wrapper whose path is no text the report can be written. -/
theorem exists_reportOf {entries : List Entry}
    (h : ∀ e ∈ entries, ∀ path, e.wrapper? = some path → path.IsText) (json : Bool) :
    ∃ report, reportOf json entries = .ok report := by
  have hitems : ∃ items, entries.mapM Entry.json? = some items := by
    induction entries with
    | nil => exact ⟨[], rfl⟩
    | cons e rest ih =>
      obtain ⟨he, hrest⟩ := List.forall_mem_cons.mp h
      obtain ⟨item, hitem⟩ := exists_json he
      obtain ⟨items, hitems⟩ := ih hrest
      exact ⟨item :: items, by simp [hitem, hitems]⟩
  obtain ⟨items, hitems⟩ := hitems
  cases json with
  | false => exact ⟨_, rfl⟩
  | true =>
    rw [reportOf, if_pos rfl, reportJson?, hitems]
    exact ⟨_, rfl⟩

theorem exists_reportOf_run {s : Stage} {files : FileTree} {m : Manifest} {entries : List Entry}
    (h : (Run.ofManifest s files m).outcome = .ok entries) {json : Bool}
    (hwritten : json = false ∨ s.root.IsText) : ∃ report, reportOf json entries = .ok report := by
  rcases hwritten with rfl | hroot
  · exact ⟨_, rfl⟩
  · refine exists_reportOf ?_ json
    intro e he path hpath
    rw [(Run.reportsEach_of_ok h).settled] at he
    obtain ⟨ea, _, rfl⟩ := List.mem_map.mp he
    obtain ⟨_, _, rfl⟩ := Option.map_eq_some_iff.mp hpath
    exact Path.isText_join hroot _

/-- What a run on the command line warns of, if it is not asked to tell more. -/
structure Warns (files : FileTree) (host : Host) (a : PrimeArguments) (o : Outcome) : Prop where
  succeeded : o.exit = 0 → ∃ stage m entries, prepare files host a = .ok (stage, m) ∧
    (Run.ofManifest stage files m).outcome = .ok entries ∧
    reportOf a.json entries = .ok o.stdout ∧
    o.log = (entries.flatMap fun e => e.notices.map (.advised e.app e.name)) ∧
    o.log.map Event.parts = entries.flatMap fun e => e.notices.map (Event.warning e.app e.name)
  /-- Only a path that is no text keeps the report of a run that succeeds from being written. -/
  reported (stage : Stage) (m : Manifest) (entries : List Entry) :
    prepare files host a = .ok (stage, m) → (Run.ofManifest stage files m).outcome = .ok entries →
    a.json = false ∨ stage.root.IsText → o.exit = 0
  stopped (stage : Stage) (m : Manifest) (before after : List (EntryPoint × Adapter))
      (ea : EntryPoint × Adapter) (f : Failure) :
    prepare files host a = .ok (stage, m) → m.entryPoints = before ++ ea :: after →
    (∀ b ∈ before, (alone stage files b).outcome.isOk = true) →
    (alone stage files ea).outcome = .error f →
    o.exit ≠ 0 ∧ o.stdout = [] ∧ o.failure? = some (.unsettled ea.1.app ea.1.name f) ∧
      o.log = ((before ++ [ea]).flatMap fun b =>
        (advisories (alone stage files b).entry.notices).map (.advised b.1.app b.1.name)) ∧
      o.log.map Event.parts = (before ++ [ea]).flatMap fun b =>
        (advisories (alone stage files b).entry.notices).map (Event.warning b.1.app b.1.name)
  advisory : ∀ event ∈ o.log, ∃ app name notice,
    event = .advised app name notice ∧ notice.isFatal = false

section Prime

variable {files : FileTree} {host : Host} {a : PrimeArguments} {verbose : Bool} {stage : Stage}
  {m : Manifest}

theorem log_of_prepare (h : prepare files host a = .ok (stage, m)) :
    (answer files host ⟨verbose, .prime a⟩).log =
      shown verbose (Run.ofManifest stage files m).log := by
  simp only [answer, prime, h]
  split
  · rfl
  · split <;> rfl

theorem answer_of_error {f : RunFailure} (h : prepare files host a = .ok (stage, m))
    (houtcome : (Run.ofManifest stage files m).outcome = .error f) :
    answer files host ⟨verbose, .prime a⟩ =
      ⟨1, [], shown verbose (Run.ofManifest stage files m).log, some f,
        (Run.ofManifest stage files m).files⟩ := by
  simp only [answer, prime, h, houtcome]

theorem exists_of_exit (h : (answer files host ⟨verbose, .prime a⟩).exit = 0) :
    ∃ stage m entries, prepare files host a = .ok (stage, m) ∧
      (Run.ofManifest stage files m).outcome = .ok entries ∧
      reportOf a.json entries = .ok (answer files host ⟨verbose, .prime a⟩).stdout := by
  simp only [answer, prime] at h ⊢
  split at h
  · cases h
  · rename_i stage m hprepare
    split at h
    · cases h
    · rename_i entries houtcome
      split at h
      · cases h
      · rename_i report hreport
        exact ⟨stage, m, entries, hprepare, houtcome, by simp only [hreport]⟩

theorem exit_of_outcome {entries : List Entry} (h : prepare files host a = .ok (stage, m))
    (houtcome : (Run.ofManifest stage files m).outcome = .ok entries)
    (hwritten : a.json = false ∨ stage.root.IsText) :
    (answer files host ⟨verbose, .prime a⟩).exit = 0 := by
  obtain ⟨report, hreport⟩ := exists_reportOf_run houtcome hwritten
  simp only [answer, prime, h, houtcome, hreport]

theorem advisory_of_mem_log {event : Event}
    (h : event ∈ (answer files host ⟨false, .prime a⟩).log) :
    ∃ app name notice, event = .advised app name notice ∧ notice.isFatal = false := by
  cases hprepare : prepare files host a with
  | error f =>
    simp only [answer, prime, hprepare] at h
    cases h
  | ok prepared =>
    obtain ⟨stage, m⟩ := prepared
    obtain ⟨eas, htold⟩ := Run.exists_shown_ofManifest stage files m
    rw [log_of_prepare hprepare, htold] at h
    obtain ⟨ea, _, h⟩ := List.mem_flatMap.mp h
    obtain ⟨notice, hnotice, rfl⟩ := List.mem_map.mp h
    exact ⟨_, _, notice, rfl, by simpa using (List.mem_filter.mp hnotice).2⟩

end Prime

theorem warns_prime (files : FileTree) (host : Host) (a : PrimeArguments) :
    Warns files host a (answer files host ⟨false, .prime a⟩) where
  succeeded := by
    intro hexit
    obtain ⟨stage, m, entries, hprepare, houtcome, hreport⟩ := exists_of_exit hexit
    have hlog := (log_of_prepare hprepare).trans (Run.shown_of_ok houtcome)
    exact ⟨stage, m, entries, hprepare, houtcome, hreport, hlog,
      (congrArg _ hlog).trans (Event.map_parts ..)⟩
  reported := by
    intro stage m entries hprepare houtcome hwritten
    exact exit_of_outcome hprepare houtcome hwritten
  stopped := by
    intro stage m before after ea f hprepare hsplit hbefore hstuck
    have hfailed := Run.outcome_of_stuck hsplit hbefore hstuck
    have hlog := (log_of_prepare hprepare).trans (Run.shown_of_stuck hsplit hbefore hstuck)
    refine ⟨?_, ?_, ?_, hlog, (congrArg _ hlog).trans (Event.map_parts ..)⟩
    all_goals rw [answer_of_error hprepare hfailed]
    exact Nat.one_ne_zero
  advisory := by
    intro event hevent
    exact advisory_of_mem_log hevent

def lostCommand : Manifest :=
  ⟨.ofList [(Text.of "api", ⟨.legacy, .ofList [(Text.of "run", Text.of "tool")]⟩),
    (Text.of "web", ⟨.legacy, .ofList [(Text.of "run", Text.of "lost")]⟩)]⟩

def lostTree : FileTree :=
  (((FileTree.empty.put [] (Text.of "stage") .directory).put [Text.of "stage"] (Text.of "opt")
    .directory).put [Text.of "stage", Text.of "opt"] (Text.of "tool") (.file ⟨[], 0o755⟩)).put []
      (Text.of "apps.json") (.file ⟨Text.Utf8.encode lostCommand.json.compact, 0o644⟩)

def lostArguments : PrimeArguments where
  root := Text.of "/stage"
  manifest := Text.of "/apps.json"
  settings? := none
  binDirs := []
  reach? := none
  placeholder? := none
  json := false

def lostStage : Stage := ({} : Settings).stage lostTree (Text.of "/stage") (.named .empty)

theorem prepare_lostTree :
    prepare lostTree (.named .empty) lostArguments = .ok (lostStage, lostCommand) := by
  have hcanonical : lostTree.canonical lostArguments.root = .ok (Text.of "/stage") := rfl
  have hsettings : settings lostTree lostArguments = .ok {} := rfl
  have hload : Manifest.load lostTree lostArguments.manifest = .ok lostCommand :=
    Manifest.load_of_written rfl
  rw [prepare, hcanonical, hsettings, hload]
  rfl

/-- The run tells where it found the first command, and nothing of the second, which stops it. -/
theorem lostTree_warns :
    (answer lostTree (.named .empty) ⟨false, .prime lostArguments⟩).stdout = [] ∧
      (answer lostTree (.named .empty) ⟨false, .prime lostArguments⟩).log =
        [.advised (Text.of "api") (Text.of "run")
            (.commandSearched (Text.of "tool") (Text.of "opt/tool") .stagedTree),
          .advised (Text.of "api") (Text.of "run")
            (.commandChanged (Text.of "tool") (Text.of "opt/tool"))] := by
  obtain ⟨_, hstdout, _, hlog, _⟩ := (warns_prime lostTree (.named .empty) lostArguments).stopped
    lostStage lostCommand [(.declare (Text.of "api") (Text.of "run") (Text.of "tool"), .legacy)] []
    (.declare (Text.of "web") (Text.of "run") (Text.of "lost"), .legacy)
    (.commandNotFound (Text.of "lost")) prepare_lostTree rfl
    (fun b hb => by rw [List.mem_singleton.mp hb]; rfl) rfl
  exact ⟨hstdout, hlog.trans rfl⟩

end CommandLine
end EntryPoints
