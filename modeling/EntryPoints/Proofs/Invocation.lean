import EntryPoints.Proofs.Settling
import EntryPoints.Proofs.WrapperFiles

/-!
Whether the runtime can invoke what a run reports. A command that is reported as it stands was
checked, and no wrapper takes an executable file away (`isExecutable_of_ok`). The name of a wrapper
is never checked: it is made of the names of the entry point and its application, and the runtime
reads it as a command.
-/
namespace EntryPoints

/-- The runtime can invoke the command: it has the form for it, and its first word is an executable
file of the staged root. -/
def Stage.Invokes (s : Stage) (files : FileTree) (command : Text) : Prop :=
  needsWrapper command = false ∧ ∃ word arguments,
    Words.split? command = some (word :: arguments) ∧
      files.isExecutable (Path.join s.root word) = true

namespace Invocable

theorem isPlain_iff {c : Char} : isPlain c = true ↔ isLetter c = true ∧ c ≠ '/' := by
  constructor
  · intro h
    refine ⟨by simp [isLetter, h], ?_⟩
    rintro rfl
    revert h
    decide
  · rintro ⟨hletter, hslash⟩
    simpa [isLetter, hslash] using hletter

/-- No letter of commands but the space parts words or opens a quotation. -/
theorem eq_space_of_isLetter {c : Char} (h : isLetter c = true)
    (hparts : Words.isGap c = true ∨ Words.isMark c = true) : c = ' ' := by
  simp only [Words.isGap, Words.isMark, Bool.or_eq_true, decide_eq_true_eq] at hparts
  rcases hparts with (((rfl | rfl) | rfl) | rfl) | rfl | rfl
  · rfl
  all_goals
    revert h
    decide

theorem isPlain_of_letters {t : Text} (h : ∀ c ∈ t, isLetter c = true ∧ c ≠ ' ') (hne : t ≠ []) :
    Words.IsPlain t := by
  have inert : ∀ c ∈ t, ¬ (Words.isGap c = true ∨ Words.isMark c = true) := by
    intro c hc hparts
    obtain ⟨hletter, hspace⟩ := h c hc
    exact hspace (eq_space_of_isLetter hletter hparts)
  refine ⟨hne, fun c hc => ?_, fun c hhead => ?_⟩
  · simpa using fun hgap => inert c hc (.inl hgap)
  · simpa using fun hmark => inert c (List.mem_of_head? hhead) (.inr hmark)

end Invocable

theorem isInvocable_iff {t : Text} :
    isInvocable t = true ↔
      t ≠ [] ∧ Path.isAbsolute t = false ∧ ∀ c ∈ t, Invocable.isLetter c = true := by
  cases t with
  | nil => simp [isInvocable]
  | cons c rest =>
    have hhead : Path.isAbsolute (Path.of (c :: rest)) = false ↔ c ≠ '/' := by
      simp [Path.isAbsolute_of]
    rw [isInvocable, Bool.and_eq_true, Invocable.isPlain_iff, List.all_eq_true, hhead,
      List.forall_mem_cons]
    grind

theorem needsWrapper_eq_false_iff {t : Text} :
    needsWrapper t = false ↔
      t ≠ [] ∧ Path.isAbsolute t = false ∧ ∀ c ∈ t, Invocable.isLetter c = true := by
  rw [needsWrapper_eq_not_isInvocable, Bool.not_eq_false', isInvocable_iff]

theorem isMark_of_needsWrapper {text : Text} (hneeds : needsWrapper text = false) {c : Char}
    (hc : c ∈ text) : Words.isMark c = false := by
  obtain ⟨_, _, hletters⟩ := needsWrapper_eq_false_iff.mp hneeds
  cases hmark : Words.isMark c with
  | false => rfl
  | true =>
    have hspace : c = ' ' := Invocable.eq_space_of_isLetter (hletters c hc) (.inr hmark)
    rw [hspace] at hmark
    cases hmark

namespace EntryPoint

variable {e : EntryPoint} {p : Policy} {s : Stage} {files : FileTree}

theorem checkRunnable_ok (h : e.checkRunnable s files = .ok ()) :
    ∃ word arguments, Words.split? e.command = some (word :: arguments) ∧
      files.isExecutable (Path.join s.root word) = true := by
  rw [checkRunnable] at h
  split at h
  · cases h
  · cases h
  · rename_i word arguments hwords
    split at h
    · rename_i hexecutable
      exact ⟨word, arguments, Words.split_eq_ok_iff.mp hwords, hexecutable⟩
    · cases h

theorem concluding_ok {text : Text} {settled : EntryPoint}
    (h : Concluding e p s files (.ok text) settled) (hfresh : e.wrapped? = none) :
    (settled.wrapped? = none → s.Invokes files settled.command) ∧
      (settled.wrapped?.isSome → settled.command = settled.wrapperName) := by
  cases h with
  | wrapped hneeds _ =>
    constructor
    · intro hnone
      cases hnone
    · intro _
      rfl
  | direct hneeds hruns =>
    refine ⟨fun _ => ⟨hneeds, checkRunnable_ok hruns⟩, fun hwrapped => ?_⟩
    simp [hfresh] at hwrapped

theorem settling_ok {text : Text} {settled : EntryPoint}
    (h : Settling e p s files (.ok text) settled) (hfresh : e.wrapped? = none) :
    (settled.wrapped? = none → s.Invokes files settled.command) ∧
      (settled.wrapped?.isSome → settled.command = settled.wrapperName) := by
  cases h with
  | kept hwrapped => simp [hfresh] at hwrapped
  | adapted _ _ _ _ hconcluding => exact concluding_ok hconcluding hfresh
  | verbatim _ _ hconcluding => exact concluding_ok hconcluding hfresh

theorem mem_wrapperName {c : Char} :
    c ∈ e.wrapperName ↔ c ∈ e.name ++ e.app ∨ c ∈ '-' :: Text.of ".wrapper" := by
  simp only [wrapperName, List.mem_append, List.mem_cons]
  grind

theorem isLetter_of_mem_fixed {c : Char} (h : c ∈ '-' :: Text.of ".wrapper") :
    Invocable.isLetter c = true ∧ c ≠ ' ' := by
  have hall : ('-' :: Text.of ".wrapper").all
      (fun c => Invocable.isLetter c && c ≠ ' ') = true := by decide
  simpa using List.all_eq_true.mp hall c h

/-- The name of a wrapper has the form of a command exactly if the names that it is made of have
only letters of commands and do not begin it with a slash. -/
theorem needsWrapper_wrapperName :
    needsWrapper e.wrapperName = false ↔
      (∀ c ∈ e.name ++ e.app, Invocable.isLetter c = true) ∧ Path.isAbsolute e.name = false := by
  have hne : e.wrapperName ≠ [] := by simp [wrapperName]
  have habsolute : Path.isAbsolute e.wrapperName = Path.isAbsolute e.name := by
    cases hname : e.name with
    | nil => simp [wrapperName, Path.isAbsolute_of, hname]
    | cons c rest => simp [wrapperName, Path.isAbsolute_of, hname]
  rw [needsWrapper_eq_not_isInvocable, Bool.not_eq_false', isInvocable_iff, habsolute]
  constructor
  · rintro ⟨_, hrelative, hletters⟩
    exact ⟨fun c hc => hletters c (mem_wrapperName.mpr (.inl hc)), hrelative⟩
  · rintro ⟨hletters, hrelative⟩
    refine ⟨hne, hrelative, fun c hc => ?_⟩
    rcases mem_wrapperName.mp hc with hnames | hfixed
    · exact hletters c hnames
    · exact (isLetter_of_mem_fixed hfixed).1

end EntryPoint

theorem Manifest.wrapped?_of_mem {m : Manifest} {ea : EntryPoint × Adapter}
    (h : ea ∈ m.entryPoints) : ea.1.wrapped? = none := by
  obtain ⟨app, _, hcommand⟩ := List.mem_flatMap.mp h
  obtain ⟨command, _, rfl⟩ := List.mem_map.mp hcommand
  rfl

namespace Run
open EntryPoint (invoked invokedAt? reported)

variable {s : Stage} {files : FileTree} {m : Manifest} {entries : List Entry}

theorem settled_of_ok (h : (ofManifest s files m).outcome = .ok entries) {e : EntryPoint}
    (he : e ∈ m.settled s files) :
    (e.wrapped? = none → s.Invokes files e.command) ∧
      (e.wrapped?.isSome → e.command = e.wrapperName) := by
  obtain ⟨hoks, _⟩ := ofManifest_ok h
  obtain ⟨ea, hea, rfl⟩ := List.mem_map.mp he
  have hok := hoks ea hea
  have hsettling := EntryPoint.settling_settle ea.1 ea.2.policy s files
  cases houtcome : (ea.1.settle ea.2.policy s files).outcome with
  | error f =>
    rw [EntryPoint.alone, houtcome] at hok
    cases hok
  | ok text =>
    rw [houtcome] at hsettling
    exact EntryPoint.settling_ok hsettling (Manifest.wrapped?_of_mem hea)

def StoredAt (s : Stage) (files : FileTree) (es : List EntryPoint) (p : Path) : Prop :=
  ∃ e ∈ es, e.wrapped?.isSome ∧ ∃ place, files.destination .reach p = some place ∧
    files.site (e.wrapperPath s) = some place

theorem isExecutable_of_ok (h : (ofManifest s files m).outcome = .ok entries) (p : Path) :
    (ofManifest s files m).files.isExecutable p = true ↔
      files.isExecutable p = true ∨ StoredAt s files (m.settled s files) p := by
  obtain ⟨_, hframe, hnode⟩ := files_of_ok h
  rw [FileTree.isExecutable_iff, FileTree.isExecutable_iff, FileTree.destination_congr hframe]
  constructor
  · rintro ⟨place, f, hdestination, hfile, hf⟩
    rw [hnode] at hfile
    cases hlast : ((m.settled s files).filterMap (invokedAt? s files place)).getLast? with
    | none =>
      rw [hlast] at hfile
      exact .inl ⟨place, f, hdestination, hfile, hf⟩
    | some text =>
      obtain ⟨e, he, hthere⟩ := List.mem_filterMap.mp (List.mem_of_getLast? hlast)
      obtain ⟨hsite, wrapped, hwrapped, _⟩ := EntryPoint.invokedAt?_eq_some_iff.mp hthere
      exact .inr ⟨e, he, by simp [hwrapped], place, hdestination, hsite⟩
  · rintro (⟨place, f, hdestination, hfile, hf⟩ | ⟨e, he, hwrapped, place, hdestination, hsite⟩)
    · refine ⟨place, ?_⟩
      rw [hnode]
      cases ((m.settled s files).filterMap (invokedAt? s files place)).getLast? with
      | none => exact ⟨f, hdestination, hfile, hf⟩
      | some text => exact ⟨Wrapper.file text, hdestination, rfl, Wrapper.isExecutable_file text⟩
    · obtain ⟨text, hlast⟩ := last_at_site he hsite hwrapped
      refine ⟨place, Wrapper.file text, hdestination, ?_, Wrapper.isExecutable_file text⟩
      rw [hnode, hlast]
      rfl

/-- The runtime can invoke every command that a run reports, in the files that the run leaves. -/
def InvokesAll (s : Stage) (files : FileTree) (m : Manifest) : Prop :=
  ∀ entries, (ofManifest s files m).outcome = .ok entries →
    ∀ entry ∈ entries, s.Invokes (ofManifest s files m).files entry.command

/-- The name of a wrapper has the form of a command, and its first word leads to a file that could
be executed before the run, or to the place of a wrapper. -/
def Addresses (s : Stage) (files : FileTree) (es : List EntryPoint) (name : Text) : Prop :=
  needsWrapper name = false ∧ ∃ word arguments, Words.split? name = some (word :: arguments) ∧
    (files.isExecutable (Path.join s.root word) = true ∨
      StoredAt s files es (Path.join s.root word))

theorem invokes_iff_addresses (h : (ofManifest s files m).outcome = .ok entries) (name : Text) :
    s.Invokes (ofManifest s files m).files name ↔
      Addresses s files (m.settled s files) name := by
  simp only [Stage.Invokes, Addresses, isExecutable_of_ok h]

theorem invokes_of_direct (h : (ofManifest s files m).outcome = .ok entries) {e : EntryPoint}
    (he : e ∈ m.settled s files) (hdirect : e.wrapped? = none) :
    s.Invokes (ofManifest s files m).files e.command := by
  obtain ⟨hneeds, word, arguments, hwords, hexecutable⟩ := (settled_of_ok h he).1 hdirect
  exact ⟨hneeds, word, arguments, hwords, (isExecutable_of_ok h _).mpr (.inl hexecutable)⟩

theorem invokes_of_addresses (h : (ofManifest s files m).outcome = .ok entries) {e : EntryPoint}
    (he : e ∈ m.settled s files)
    (haddresses : e.wrapped?.isSome → Addresses s files (m.settled s files) e.wrapperName) :
    s.Invokes (ofManifest s files m).files e.command := by
  cases hwrapped : e.wrapped? with
  | none => exact invokes_of_direct h he hwrapped
  | some wrapped =>
    have hsome : e.wrapped?.isSome := by simp [hwrapped]
    rw [(settled_of_ok h he).2 hsome, invokes_iff_addresses h]
    exact haddresses hsome

/-- The names of an entry point and its application consist of letters of commands other than the
space, and the first does not begin with a slash. -/
def HasPlainNames (entry : Entry) : Prop :=
  (∀ c ∈ entry.name ++ entry.app, Invocable.isLetter c = true ∧ c ≠ ' ') ∧
    Path.isAbsolute entry.name = false

/-- A wrapper with a plain name is its own first word, and it is stored where that leads. -/
theorem addresses_of_plain (h : (ofManifest s files m).outcome = .ok entries) {e : EntryPoint}
    (he : e ∈ m.settled s files) (hwrapped : e.wrapped?.isSome)
    (hplain : HasPlainNames (reported s e)) :
    Addresses s files (m.settled s files) e.wrapperName := by
  obtain ⟨hletters, hrelative⟩ := hplain
  have hform : needsWrapper e.wrapperName = false := by
    rw [EntryPoint.needsWrapper_wrapperName]
    exact ⟨fun c hc => (hletters c hc).1, hrelative⟩
  have hwords : Words.split? e.wrapperName = some [e.wrapperName] := by
    apply Words.split?_plain
    apply Invocable.isPlain_of_letters
    · intro c hc
      rcases EntryPoint.mem_wrapperName.mp hc with hnames | hfixed
      · exact hletters c hnames
      · exact EntryPoint.isLetter_of_mem_fixed hfixed
    · simp [EntryPoint.wrapperName]
  obtain ⟨place, hsite⟩ := site_of_ok h he hwrapped
  refine ⟨hform, e.wrapperName, [], hwords, .inr ⟨e, he, hwrapped, place, ?_, hsite⟩⟩
  exact FileTree.destination_reach_of_site hsite

/-- In a run that succeeds the runtime can invoke every command exactly if the names of the wrappers
address something executable. It can invoke a command without a wrapper, and a wrapper whose names
are plain. -/
theorem commands_invoked_iff_wrappers_addressed
    (h : (ofManifest s files m).outcome = .ok entries) :
    (InvokesAll s files m ↔ ∀ e ∈ m.settled s files, e.wrapped?.isSome →
        Addresses s files (m.settled s files) e.wrapperName) ∧
      ∀ entry ∈ entries, entry.wrapper? = none ∨ HasPlainNames entry →
        s.Invokes (ofManifest s files m).files entry.command := by
  have hentries := (files_of_ok h).1
  refine ⟨⟨?_, ?_⟩, ?_⟩
  · intro invokes e he hwrapped
    have hentry : reported s e ∈ entries := by
      rw [hentries]
      exact List.mem_map_of_mem he
    rw [← invokes_iff_addresses h, ← (settled_of_ok h he).2 hwrapped]
    exact invokes entries h _ hentry
  · intro addressed entries' h' entry hentry
    rw [(files_of_ok h').1] at hentry
    obtain ⟨e, he, rfl⟩ := List.mem_map.mp hentry
    exact invokes_of_addresses h he (addressed e he)
  · intro entry hentry hcase
    rw [hentries] at hentry
    obtain ⟨e, he, rfl⟩ := List.mem_map.mp hentry
    refine invokes_of_addresses h he fun hwrapped => ?_
    rcases hcase with hbare | hplain
    · have hnone : e.wrapped? = none := by simpa [reported] using hbare
      simp [hnone] at hwrapped
    · exact addresses_of_plain h he hwrapped hplain

def unreadableName : Manifest :=
  ⟨.ofList [(Text.of "x&y", ⟨.legacy, .ofList [(Text.of "run", Text.of "/bin/true")]⟩)]⟩

def spacedName : Manifest :=
  ⟨.ofList [(Text.of "app", ⟨.legacy, .ofList [(Text.of "run it", Text.of "/bin/true")]⟩)]⟩

theorem unreadableName_outcome : (ofManifest plainStage .empty unreadableName).outcome =
    .ok [wrappedEntry "x&y" "run" "/bin/true" "run-x&y.wrapper"] := by
  rfl

theorem spacedName_outcome : (ofManifest plainStage .empty spacedName).outcome =
    .ok [wrappedEntry "app" "run it" "/bin/true" "run it-app.wrapper"] := by
  rfl

theorem spacedName_invoked_iff_wrapper_addressed :
    (ofManifest plainStage .empty spacedName).outcome =
        .ok [wrappedEntry "app" "run it" "/bin/true" "run it-app.wrapper"] ∧
      (InvokesAll plainStage .empty spacedName ↔
        ∀ e ∈ spacedName.settled plainStage .empty, e.wrapped?.isSome →
          Addresses plainStage .empty (spacedName.settled plainStage .empty) e.wrapperName) :=
  ⟨spacedName_outcome, (commands_invoked_iff_wrappers_addressed spacedName_outcome).1⟩

/-- Under valid settings the name of a wrapper can fail to have the form of a command, or begin with
a word that leads nowhere. -/
theorem spacedName_is_not_invoked :
    ({} : Settings).fault? = none ∧ ¬ InvokesAll plainStage .empty unreadableName ∧
      ¬ InvokesAll plainStage .empty spacedName := by
  refine ⟨by decide, fun invokes => ?_, fun invokes => ?_⟩
  · obtain ⟨hform, _⟩ := invokes _ unreadableName_outcome _ List.mem_cons_self
    revert hform
    decide
  · obtain ⟨_, word, arguments, hwords, hexecutable⟩ :=
      invokes _ spacedName_outcome _ List.mem_cons_self
    have hsplit : Words.split? (Text.of "run it-app.wrapper") =
        some [Text.of "run", Text.of "it-app.wrapper"] := by decide
    have hword : Text.of "run" = word := by
      have hall := hsplit.symm.trans hwords
      simp only [Option.some.injEq, List.cons.injEq] at hall
      exact hall.1
    have hnothing : (ofManifest plainStage .empty spacedName).files.isExecutable
        (Path.join plainStage.root (Text.of "run")) = false := by rfl
    rw [← hword, hnothing] at hexecutable
    cases hexecutable

end Run
end EntryPoints
