import EntryPoints.Proofs.Report
import EntryPoints.Settings

/-!
Whose script a wrapper holds when a run is over. Wrappers are named by an entry point and its
application, and different pairs have one name where a stretch between dashes moves from the one to
the other; links may also lead different names to one place. Where that happens the last wrapper
replaces the others, and the run does not fail.
-/
namespace EntryPoints

namespace Wrapper

theorem script_injective {a b : Text} (h : script a = script b) : a = b :=
  List.append_cancel_left (List.append_cancel_right h)

theorem bytes_injective {a b : Text}
    (h : Text.Utf8.encode (script a) = Text.Utf8.encode (script b)) : a = b := by
  have hscript := congrArg Text.Utf8.lenient h
  rw [Text.Utf8.lenient_encode, Text.Utf8.lenient_encode] at hscript
  exact script_injective hscript

end Wrapper

namespace Run
open EntryPoint (invoked invokedAt? reported)

variable {s : Stage} {files : FileTree} {m : Manifest} {entries : List Entry}

/-- Every wrapper that a run reports holds in the end the script of its own entry point's command,
the one that is wrapped when the entry point is settled by itself. -/
def KeepsWrappers (s : Stage) (files : FileTree) (m : Manifest) : Prop :=
  ∀ entries, (ofManifest s files m).outcome = .ok entries →
    ∀ (i : Nat) (entry : Entry) (path : Path), entries[i]? = some entry →
      entry.wrapper? = some path →
        ∃ wrapped, (m.settled s files)[i]?.bind EntryPoint.wrapped? = some wrapped ∧
          (ofManifest s files m).files.read path =
            .ok (Text.Utf8.encode (Wrapper.script (invoked s wrapped)))

/-- No two wrappers that a run reports are one file. -/
def SeparatesWrappers (s : Stage) (files : FileTree) (m : Manifest) : Prop :=
  ∀ entries, (ofManifest s files m).outcome = .ok entries →
    ∀ (i j : Nat) (entry entry' : Entry) (path path' : Path), i ≠ j →
      entries[i]? = some entry → entries[j]? = some entry' →
        entry.wrapper? = some path → entry'.wrapper? = some path' →
          (ofManifest s files m).files.locate path ≠ (ofManifest s files m).files.locate path'

/-- Where wrappers go to one place before the run, they run the same command. -/
def AgreesOnSites (s : Stage) (files : FileTree) (es : List EntryPoint) : Prop :=
  ∀ e ∈ es, ∀ e' ∈ es, ∀ wrapped wrapped', e.wrapped? = some wrapped →
    e'.wrapped? = some wrapped' →
      files.site (e.wrapperPath s) = files.site (e'.wrapperPath s) →
        invoked s wrapped = invoked s wrapped'

/-- No two wrappers go to one place before the run. -/
def SeparatesSites (s : Stage) (files : FileTree) (es : List EntryPoint) : Prop :=
  ∀ (i j : Nat) (e e' : EntryPoint), i ≠ j → es[i]? = some e → es[j]? = some e' →
    e.wrapped?.isSome → e'.wrapped?.isSome →
      files.site (e.wrapperPath s) ≠ files.site (e'.wrapperPath s)

theorem files_of_ok (h : (ofManifest s files m).outcome = .ok entries) :
    entries = (m.settled s files).map (reported s) ∧
      (ofManifest s files m).files.frame = files.frame ∧
        ∀ place, (ofManifest s files m).files.node? place =
          (((m.settled s files).filterMap (invokedAt? s files place)).getLast?.map fun text =>
            .file (Wrapper.file text)).or (files.node? place) := by
  obtain ⟨_, hwriting⟩ := ofManifest_ok h
  obtain ⟨hentries, hall⟩ := writing_ok hwriting
  have hnode := node?_writing hwriting
  rw [written_of_all hall] at hnode
  exact ⟨hentries, frame_writing hwriting, hnode⟩

theorem site_of_ok (h : (ofManifest s files m).outcome = .ok entries) {e : EntryPoint}
    (he : e ∈ m.settled s files) (hwrapped : e.wrapped?.isSome) :
    ∃ place, files.site (e.wrapperPath s) = some place := by
  obtain ⟨_, hall⟩ := writing_ok (ofManifest_ok h).2
  obtain ⟨place, hsite, _⟩ := EntryPoint.isWritable_iff.mp (hall e he) hwrapped
  exact ⟨place, hsite⟩

theorem last_at_site {es : List EntryPoint} {e : EntryPoint} (he : e ∈ es) {place : Location}
    (hsite : files.site (e.wrapperPath s) = some place) (hwrapped : e.wrapped?.isSome) :
    ∃ text, (es.filterMap (invokedAt? s files place)).getLast? = some text := by
  obtain ⟨wrapped, hwrapped⟩ := Option.isSome_iff_exists.mp hwrapped
  have hhere : invokedAt? s files place e = some (invoked s wrapped) :=
    EntryPoint.invokedAt?_eq_some_iff.mpr ⟨hsite, wrapped, hwrapped, rfl⟩
  have hmem : invoked s wrapped ∈ es.filterMap (invokedAt? s files place) :=
    List.mem_filterMap.mpr ⟨e, he, hhere⟩
  exact Option.isSome_iff_exists.mp (List.getLast?_isSome.mpr (List.ne_nil_of_mem hmem))

/-- The path of a wrapper leads in the end to what the last wrapper at its place runs. -/
theorem wrapper_at_site (h : (ofManifest s files m).outcome = .ok entries) {e : EntryPoint}
    (he : e ∈ m.settled s files) (hwrapped : e.wrapped?.isSome) {place : Location}
    (hsite : files.site (e.wrapperPath s) = some place) :
    ∃ text, ((m.settled s files).filterMap (invokedAt? s files place)).getLast? = some text ∧
      (ofManifest s files m).files.read (e.wrapperPath s) =
        .ok (Text.Utf8.encode (Wrapper.script text)) ∧
      (ofManifest s files m).files.locate (e.wrapperPath s) = .ok place := by
  obtain ⟨_, hframe, hnode⟩ := files_of_ok h
  obtain ⟨text, htext⟩ := last_at_site he hsite hwrapped
  have hsite' : (ofManifest s files m).files.site (e.wrapperPath s) = some place := by
    rw [FileTree.site_congr hframe, hsite]
  have hfile : (ofManifest s files m).files.node? place = some (.file (Wrapper.file text)) := by
    rw [hnode, htext]
    rfl
  refine ⟨text, htext, ?_, ?_⟩
  · rw [FileTree.read, FileTree.lookup_of_site hsite' hfile]
    rfl
  · exact FileTree.locate_eq_ok_iff.mpr
      ⟨FileTree.destination_reach_of_site hsite', by simp [hfile]⟩

theorem entry_of_ok (h : (ofManifest s files m).outcome = .ok entries) {i : Nat} {entry : Entry}
    {path : Path} (hentry : entries[i]? = some entry) (hpath : entry.wrapper? = some path) :
    ∃ e, (m.settled s files)[i]? = some e ∧ e.wrapped?.isSome ∧ path = e.wrapperPath s := by
  obtain ⟨rfl, _, _⟩ := files_of_ok h
  rw [List.getElem?_map] at hentry
  obtain ⟨e, he, rfl⟩ := Option.map_eq_some_iff.mp hentry
  obtain ⟨wrapped, hwrapped, rfl⟩ := Option.map_eq_some_iff.mp hpath
  exact ⟨e, he, by simp [hwrapped], rfl⟩

theorem entry_of_wrapped (h : (ofManifest s files m).outcome = .ok entries) {i : Nat}
    {e : EntryPoint} (he : (m.settled s files)[i]? = some e) (hwrapped : e.wrapped?.isSome) :
    ∃ entry, entries[i]? = some entry ∧ entry.wrapper? = some (e.wrapperPath s) := by
  obtain ⟨rfl, _, _⟩ := files_of_ok h
  obtain ⟨wrapped, hwrapped⟩ := Option.isSome_iff_exists.mp hwrapped
  refine ⟨reported s e, ?_, ?_⟩
  · rw [List.getElem?_map, he]
    rfl
  · simp [reported, hwrapped]

theorem keepsWrappers_iff (h : (ofManifest s files m).outcome = .ok entries) :
    KeepsWrappers s files m ↔ AgreesOnSites s files (m.settled s files) := by
  constructor
  · intro keeps e he e' he' wrapped wrapped' hwrapped hwrapped' hsame
    obtain ⟨place, hsite⟩ := site_of_ok h he (by simp [hwrapped])
    have own : ∀ e ∈ m.settled s files, ∀ wrapped, e.wrapped? = some wrapped →
        files.site (e.wrapperPath s) = some place →
          ((m.settled s files).filterMap (invokedAt? s files place)).getLast? =
            some (invoked s wrapped) := by
      intro e he wrapped hwrapped hsite
      obtain ⟨i, hi⟩ := List.getElem?_of_mem he
      obtain ⟨entry, hentry, hpath⟩ := entry_of_wrapped h hi (by simp [hwrapped])
      obtain ⟨wrapped', hown, hread⟩ := keeps entries h i entry _ hentry hpath
      obtain rfl : wrapped = wrapped' := by simpa [hi, hwrapped] using hown
      obtain ⟨text, hlast, hread', _⟩ := wrapper_at_site h he (by simp [hwrapped]) hsite
      rw [hread', Except.ok.injEq] at hread
      rw [hlast, Wrapper.bytes_injective hread]
    have hlast := own e he wrapped hwrapped hsite
    have hlast' := own e' he' wrapped' hwrapped' (hsame.symm.trans hsite)
    exact Option.some.inj (hlast.symm.trans hlast')
  · intro agrees entries' h' i entry path hentry hpath
    obtain ⟨e, hi, hsome, rfl⟩ := entry_of_ok h' hentry hpath
    have he : e ∈ m.settled s files := List.mem_of_getElem? hi
    obtain ⟨place, hsite⟩ := site_of_ok h he hsome
    obtain ⟨text, hlast, hread, _⟩ := wrapper_at_site h he hsome hsite
    -- the text that is there comes from an entry point whose wrapper goes to the same place
    obtain ⟨e', he', hthere⟩ := List.mem_filterMap.mp (List.mem_of_getLast? hlast)
    obtain ⟨hsite', wrapped', hwrapped', rfl⟩ := EntryPoint.invokedAt?_eq_some_iff.mp hthere
    obtain ⟨wrapped, hwrapped⟩ := Option.isSome_iff_exists.mp hsome
    have hsame : invoked s wrapped' = invoked s wrapped :=
      agrees e' he' e he wrapped' wrapped hwrapped' hwrapped (hsite'.trans hsite.symm)
    exact ⟨wrapped, by simp [hi, hwrapped], by rw [hread, hsame]⟩

theorem separatesWrappers_iff (h : (ofManifest s files m).outcome = .ok entries) :
    SeparatesWrappers s files m ↔ SeparatesSites s files (m.settled s files) := by
  constructor
  · intro separates i j e e' hij hi hj hwrapped hwrapped' hsame
    obtain ⟨entry, hentry, hpath⟩ := entry_of_wrapped h hi hwrapped
    obtain ⟨entry', hentry', hpath'⟩ := entry_of_wrapped h hj hwrapped'
    have he : e ∈ m.settled s files := List.mem_of_getElem? hi
    have he' : e' ∈ m.settled s files := List.mem_of_getElem? hj
    obtain ⟨place, hsite⟩ := site_of_ok h he hwrapped
    obtain ⟨_, _, _, hlocate⟩ := wrapper_at_site h he hwrapped hsite
    obtain ⟨_, _, _, hlocate'⟩ := wrapper_at_site h he' hwrapped' (hsame.symm.trans hsite)
    exact separates entries h i j entry entry' _ _ hij hentry hentry' hpath hpath'
      (hlocate.trans hlocate'.symm)
  · intro separates entries' h' i j entry entry' path path' hij hentry hentry' hpath hpath' hsame
    obtain ⟨e, hi, hwrapped, rfl⟩ := entry_of_ok h' hentry hpath
    obtain ⟨e', hj, hwrapped', rfl⟩ := entry_of_ok h' hentry' hpath'
    have he : e ∈ m.settled s files := List.mem_of_getElem? hi
    have he' : e' ∈ m.settled s files := List.mem_of_getElem? hj
    obtain ⟨place, hsite⟩ := site_of_ok h he hwrapped
    obtain ⟨place', hsite'⟩ := site_of_ok h he' hwrapped'
    obtain ⟨_, _, _, hlocate⟩ := wrapper_at_site h he hwrapped hsite
    obtain ⟨_, _, _, hlocate'⟩ := wrapper_at_site h he' hwrapped' hsite'
    have hplace : place = place' := by
      rw [hlocate, hlocate'] at hsame
      exact Except.ok.inj hsame
    exact separates i j e e' hij hi hj hwrapped hwrapped' (by rw [hsite, hsite', hplace])

/-- A run that succeeds keeps all its wrappers exactly if those that go to one place run the same
command, and they are different files exactly if no two go to one place. -/
theorem wrappers_kept_iff_sites_agree (h : (ofManifest s files m).outcome = .ok entries) :
    (KeepsWrappers s files m ↔ AgreesOnSites s files (m.settled s files)) ∧
      (SeparatesWrappers s files m ↔ SeparatesSites s files (m.settled s files)) :=
  ⟨keepsWrappers_iff h, separatesWrappers_iff h⟩

/-- A stage at the top of a tree, under the usual settings. -/
def plainStage : Stage := ({} : Settings).stage .empty [Path.slash] (.named .empty)

/-- Entry point `a` of `b-c` and entry point `a-b` of `c`, which both need a wrapper. -/
def dashedNames : Manifest :=
  ⟨.ofList [(Text.of "b-c", ⟨.legacy, .ofList [(Text.of "a", Text.of "/bin/one")]⟩),
    (Text.of "c", ⟨.legacy, .ofList [(Text.of "a-b", Text.of "/bin/two")]⟩)]⟩

def wrappedEntry (app name command wrapper : String) : Entry :=
  ⟨Text.of app, Text.of name, Text.of wrapper, some (Path.slash :: Path.of (Text.of wrapper)),
    [.wrapperGenerated (Text.of app) (Text.of command)]⟩

theorem dashedNames_outcome : (ofManifest plainStage .empty dashedNames).outcome =
    .ok [wrappedEntry "b-c" "a" "/bin/one" "a-b-c.wrapper",
      wrappedEntry "c" "a-b" "/bin/two" "a-b-c.wrapper"] := by
  rfl

theorem dashedNames_kept_iff_sites_agree :
    (ofManifest plainStage .empty dashedNames).outcome =
        .ok [wrappedEntry "b-c" "a" "/bin/one" "a-b-c.wrapper",
          wrappedEntry "c" "a-b" "/bin/two" "a-b-c.wrapper"] ∧
      (KeepsWrappers plainStage .empty dashedNames ↔
        AgreesOnSites plainStage .empty (dashedNames.settled plainStage .empty)) ∧
      (SeparatesWrappers plainStage .empty dashedNames ↔
        SeparatesSites plainStage .empty (dashedNames.settled plainStage .empty)) :=
  ⟨dashedNames_outcome, wrappers_kept_iff_sites_agree dashedNames_outcome⟩

/-- Under valid settings the wrapper of the first entry point is lost to that of the second. -/
theorem dashedNames_lose_a_wrapper :
    ({} : Settings).fault? = none ∧ ¬ KeepsWrappers plainStage .empty dashedNames ∧
      ¬ SeparatesWrappers plainStage .empty dashedNames := by
  have hrun := dashedNames_outcome
  refine ⟨by decide, fun keeps => ?_, fun separates => ?_⟩
  · obtain ⟨wrapped, hwrapped, hread⟩ := keeps _ hrun 0 _ _ rfl rfl
    have hfirst : (dashedNames.settled plainStage .empty)[0]?.bind EntryPoint.wrapped? =
        some (Text.of "/bin/one") := by rfl
    have hlast : (ofManifest plainStage .empty dashedNames).files.read
        (Path.slash :: Path.of (Text.of "a-b-c.wrapper")) =
          .ok (Text.Utf8.encode (Wrapper.script (Text.of "/bin/two"))) := by rfl
    rw [hfirst, Option.some.injEq] at hwrapped
    rw [hlast, Except.ok.injEq] at hread
    have hsame := Wrapper.bytes_injective hread
    rw [← hwrapped] at hsame
    revert hsame
    decide
  · exact separates _ hrun 0 1 _ _ _ _ (by decide) rfl rfl rfl rfl rfl

end Run
end EntryPoints
