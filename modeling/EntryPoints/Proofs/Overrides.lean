import EntryPoints.CommandLine.Outcome
import EntryPoints.Proofs.WrittenJson

/-!
Settings on the command line and in a document. An argument that gives a setting does what a
document with that setting in place of its own does, and this holds of settings that are refused as
well. Every document that loads, and every argument that is accepted, keeps to depths that can be
written down again, so there always is such a document.
-/
namespace EntryPoints

namespace Json

theorem all_isDigit_decimal (n : Nat) : (Text.decimal n).all Char.isDigit = true := by
  rw [List.all_eq_true]
  intro c hc
  exact Nat.isDigit_of_mem_toDigits (by decide) (by decide) hc

theorem natural?_natural {n : Nat} (h : n < naturalLimit) : (natural n).natural? = some n := by
  have hvalue : (Text.decimal n).foldl (fun m c => 10 * m + (c.toNat - '0'.toNat)) 0 = n := by
    rw [← Nat.ofDigitChars_eq_foldl]
    exact Nat.ofDigitChars_toDigits (by decide) (by decide)
  simp only [natural, natural?, all_isDigit_decimal, hvalue, if_pos h, if_true]

theorem lt_of_natural? {v : Json} {n : Nat} (h : v.natural? = some n) : n < naturalLimit := by
  unfold natural? at h
  split at h
  · simp only [Option.ite_none_right_eq_some, Option.some.injEq] at h
    obtain ⟨_, hlt, rfl⟩ := h
    exact hlt
  · cases h

theorem head?_decimal {n : Nat} (h : n ≠ 0) : (Text.decimal n).head? ≠ some '0' := by
  have hdigit : ∀ m < 10, m ≠ 0 → Nat.digitChar m ≠ '0' := by decide
  -- The first digit stays first while digits are taken off the end.
  induction n using Nat.strongRecOn with
  | ind n ih =>
    rw [Text.decimal, Nat.toDigits_eq_if (by decide)]
    split
    · rename_i hsmall
      simpa using hdigit n hsmall h
    · rw [List.head?_append, Option.or_of_isSome (by simp [Nat.toDigits_ne_nil])]
      exact ih (n / 10) (by omega) (by omega)

theorem isNatural_decimal (n : Nat) : isNatural (Text.decimal n) = true := by
  have hne : Text.decimal n ≠ [] := Nat.toDigits_ne_nil
  by_cases hzero : n = 0
  · subst hzero
    rfl
  · rw [isNatural, all_isDigit_decimal]
    simp [hne, head?_decimal hzero]

end Json

namespace Settings
open Json (naturalLimit)

/-- The depth of the reach can be written down. -/
def HasDepth (s : Settings) : Prop := ∀ depth, s.reach = .bounded depth → depth < naturalLimit

theorem texts?_texts (ts : List Text) : (Json.array (ts.map .text)).texts? = some ts := by
  show (ts.map Json.text).mapM Json.text? = some ts
  induction ts with
  | nil => rfl
  | cons t ts ih => simp [ih, Json.text?, Json.text]

theorem reachOfJson?_reachJson {reach : Reach}
    (h : ∀ depth, reach = .bounded depth → depth < naturalLimit) :
    reachOfJson? (reachJson reach) = some reach := by
  cases reach with
  | full => rfl
  | disabled => rfl
  | bounded depth =>
    have hdepth : depthOfJson? (.object [Json.member "max_depth" (.natural depth)]) =
        (Json.natural depth).natural? := rfl
    have hread : reachOfJson? (reachJson (.bounded depth)) =
        (depthOfJson? (.object [Json.member "max_depth" (.natural depth)])).map .bounded := rfl
    rw [hread, hdepth, Json.natural?_natural (h depth rfl)]
    rfl

theorem ofJson?_json {s : Settings} (h : s.HasDepth) : ofJson? s.json = some s := by
  have hfields : s.json.fields?
      [Text.of "root_variable", Text.of "bin_dirs", Text.of "tree_search"] =
        some [some (.text s.placeholder), some (.array (s.binDirs.map .text)),
          some (reachJson s.reach)] := rfl
  have hplaceholder : (Json.text s.placeholder).text? = some s.placeholder := rfl
  simp only [ofJson?, hfields, Option.bind_eq_bind, Option.bind_some, Option.elim_some,
    hplaceholder, texts?_texts, reachOfJson?_reachJson h]

theorem isSpelled_json (s : Settings) : s.json.IsSpelled := by
  have hdirs : Json.AllSpelled (s.binDirs.map .text) := by
    induction s.binDirs with
    | nil => trivial
    | cons dir dirs ih => exact ⟨rfl, ih⟩
  have hreach : (reachJson s.reach).IsSpelled := by
    cases s.reach with
    | full => rfl
    | disabled => rfl
    | bounded depth => exact ⟨rfl, ⟨rfl, Json.isNatural_decimal depth, trivial⟩, trivial⟩
  exact ⟨rfl, rfl, rfl, hdirs, rfl, hreach, trivial⟩

theorem lt_of_depthOfJson? {v : Json} {depth : Nat} (h : depthOfJson? v = some depth) :
    depth < naturalLimit := by
  unfold depthOfJson? at h
  split at h
  · exact Json.lt_of_natural? h
  · obtain ⟨members, _, h⟩ := Option.bind_eq_some_iff.mp h
    split at h
    · exact Json.lt_of_natural? h
    · cases h

theorem lt_of_reachOfJson? {v : Json} {depth : Nat} (h : reachOfJson? v = some (.bounded depth)) :
    depth < naturalLimit := by
  have hplain : plainReachOfJson? v ≠ some (.bounded depth) := by
    intro h
    obtain ⟨name, _, h⟩ := Option.bind_eq_some_iff.mp h
    repeat' split at h
    all_goals cases h
  unfold reachOfJson? at h
  split at h
  · split at h
    · obtain ⟨_, hdepth, heq⟩ := Option.map_eq_some_iff.mp h
      cases heq
      exact lt_of_depthOfJson? hdepth
    · exact absurd h hplain
  · exact absurd h hplain

theorem hasDepth_of_ofJson? {v : Json} {s : Settings} (h : ofJson? v = some s) : s.HasDepth := by
  obtain ⟨fields, _, h⟩ := Option.bind_eq_some_iff.mp h
  split at h
  · rename_i _ _ reach _
    obtain ⟨_, _, h⟩ := Option.bind_eq_some_iff.mp h
    obtain ⟨_, _, h⟩ := Option.bind_eq_some_iff.mp h
    obtain ⟨reach', hreach, h⟩ := Option.bind_eq_some_iff.mp h
    obtain rfl := Option.some.inj h
    rintro depth rfl
    cases reach with
    | none => cases hreach
    | some v => exact lt_of_reachOfJson? hreach
  · cases h

theorem eq_of_check {s s' : Settings} (h : s.check = .ok s') : s' = s := by
  unfold check at h
  split at h
  · cases h
  · exact (Except.ok.inj h).symm

theorem check_bind_check (s : Settings) : s.check.bind check = s.check := by
  unfold check
  cases hfault : s.fault? with
  | none => simp [Except.bind, hfault]
  | some fault => rfl

theorem load_of_read {files : FileTree} {path : Path} {document : List UInt8} {s : Settings}
    (hread : files.read path = .ok document)
    (hdocument : (Json.ofBytes? document).bind ofJson? = some s) : load files path = s.check := by
  rw [load, hread]
  dsimp only
  rw [hdocument]

theorem hasDepth_of_load {files : FileTree} {path : Path} {s : Settings}
    (h : load files path = .ok s) : s.HasDepth := by
  unfold load at h
  split at h
  · cases h
  · split at h
    · cases h
    · rename_i hdocument
      obtain ⟨v, _, hv⟩ := Option.bind_eq_some_iff.mp hdocument
      obtain rfl := eq_of_check h
      exact hasDepth_of_ofJson? hv

end Settings

namespace CommandLine

/-- The settings before the arguments replace any of them: those of the document, or the usual. -/
def originalSettings (files : FileTree) (a : PrimeArguments) : Except RunFailure Settings :=
  match a.settings? with
  | some path => Settings.load files path
  | none => .ok {}

/-- The settings with those that the arguments give in place of their own. -/
def replaced (s : Settings) (a : PrimeArguments) : Settings where
  placeholder := a.placeholder?.getD s.placeholder
  binDirs := if a.binDirs = [] then s.binDirs else a.binDirs
  reach := (a.reach?.bind reach?).getD s.reach

/-- The arguments with a document as the only source of settings. -/
def PrimeArguments.through (a : PrimeArguments) (path : Path) : PrimeArguments :=
  { a with settings? := some path, binDirs := [], reach? := none, placeholder? := none }

variable {files : FileTree} {a : PrimeArguments} {s : Settings}

/-- Arguments replace what they give, and the outcome is checked, given or not. -/
theorem applyArguments_eq (h : ∀ word, a.reach? = some word → (reach? word).isSome = true) :
    applyArguments a s = (replaced s a).check := by
  have hdirs : (if a.binDirs = [] then s else { s with binDirs := a.binDirs }) =
      { s with binDirs := if a.binDirs = [] then s.binDirs else a.binDirs } := by
    split <;> rfl
  simp only [applyArguments, hdirs]
  cases hword : a.reach? with
  | none =>
    cases hplaceholder : a.placeholder? <;> simp only [replaced, hword, hplaceholder] <;> rfl
  | some word =>
    obtain ⟨reach, hreach⟩ := Option.isSome_iff_exists.mp (h word hword)
    cases hplaceholder : a.placeholder? <;>
      simp only [replaced, hword, Option.bind_some, hreach, hplaceholder] <;> rfl

theorem settings_eq_bind :
    settings files a = (originalSettings files a).bind (applyArguments a) := by
  unfold settings originalSettings
  cases a.settings? <;> rfl

theorem settings_eq (horiginal : originalSettings files a = .ok s)
    (hreach : ∀ word, a.reach? = some word → (reach? word).isSome = true) :
    settings files a = (replaced s a).check := by
  rw [settings_eq_bind, horiginal]
  exact applyArguments_eq hreach

theorem settings_through {path : Path} {document : List UInt8}
    (hread : files.read path = .ok document)
    (hdocument : (Json.ofBytes? document).bind Settings.ofJson? = some s) :
    settings files (a.through path) = s.check := by
  -- Nothing is left to replace, so the settings are checked once by the load and once more.
  have hsame : applyArguments (a.through path) = Settings.check := by
    funext s
    exact applyArguments_eq (by intro word hword; cases hword)
  rw [settings_eq_bind, hsame, originalSettings]
  exact (congrArg (Except.bind · Settings.check) (Settings.load_of_read hread hdocument)).trans
    s.check_bind_check

theorem hasDepth_of_original (h : originalSettings files a = .ok s) : s.HasDepth := by
  unfold originalSettings at h
  split at h
  · exact Settings.hasDepth_of_load h
  · obtain rfl := Except.ok.inj h
    intro depth hdepth
    cases hdepth

theorem lt_of_reach? {word : Text} {depth : Nat} (h : reach? word = some (.bounded depth)) :
    depth < Json.naturalLimit := by
  unfold reach? at h
  repeat' split at h
  · cases h
  · cases h
  · obtain ⟨_, hdepth, heq⟩ := Option.map_eq_some_iff.mp h
    cases heq
    rw [depth?, Option.ite_none_left_eq_some] at hdepth
    exact Json.lt_of_natural? hdepth.2

theorem hasDepth_replaced (h : s.HasDepth) : (replaced s a).HasDepth := by
  intro depth hdepth
  cases hword : a.reach?.bind reach? with
  | none =>
    rw [replaced, hword] at hdepth
    exact h depth hdepth
  | some reach =>
    obtain ⟨word, _, hreach⟩ := Option.bind_eq_some_iff.mp hword
    rw [replaced, hword] at hdepth
    exact lt_of_reach? (hreach.trans (congrArg some hdepth))

/-- The arguments that give settings do what a document does that gives the same. There is such a
document, and every one will do, those whose settings are refused included. -/
theorem answer_through (host : Host) (verbose : Bool)
    (horiginal : originalSettings files a = .ok s)
    (hreach : ∀ word, a.reach? = some word → (reach? word).isSome = true) :
    (Json.ofBytes? (Text.Utf8.encode (replaced s a).json.compact)).bind Settings.ofJson? =
        some (replaced s a) ∧
      ∀ (path : Path) (document : List UInt8), files.read path = .ok document →
        (Json.ofBytes? document).bind Settings.ofJson? = some (replaced s a) →
        answer files host ⟨verbose, .prime a⟩ =
          answer files host ⟨verbose, .prime (a.through path)⟩ := by
  constructor
  · rw [Json.ofBytes?_compact (Settings.isSpelled_json _), Option.bind_some]
    exact Settings.ofJson?_json (hasDepth_replaced (hasDepth_of_original horiginal))
  · intro path document hread hdocument
    have hsettings : settings files a = settings files (a.through path) := by
      rw [settings_eq horiginal hreach, settings_through hread hdocument]
    have hprepare : prepare files host a = prepare files host (a.through path) := by
      rw [prepare, prepare, hsettings]
      rfl
    simp only [answer, prime, hprepare]
    rfl

def ownPlaceholder : Settings := { placeholder := Text.of "$ROOT" }

/-- Arguments that keep the placeholder of a document, and give the directories and the reach. -/
def shallowArguments : PrimeArguments where
  root := Text.of "/stage"
  manifest := Text.of "/apps.json"
  settings? := some (Text.of "/own.json")
  binDirs := [Text.of "tools"]
  reach? := some (Text.of "+2")
  placeholder? := none
  json := false

def toolManifest : Manifest :=
  ⟨.ofList [(Text.of "app", ⟨.legacy, .ofList [(Text.of "serve", Text.of "tool --now")]⟩)]⟩

def twoToolsTree : FileTree :=
  let stage := (FileTree.empty.put [] (Text.of "stage") .directory).put [Text.of "stage"]
    (Text.of "a") .directory
  let first := stage.put [Text.of "stage", Text.of "a"] (Text.of "tool") (.file ⟨[], 0o755⟩)
  (first.put [Text.of "stage"] (Text.of "tools") .directory).put
    [Text.of "stage", Text.of "tools"] (Text.of "tool") (.file ⟨[], 0o755⟩)

/-- The root with the two tools, and beside it the manifest and the settings before and after their
replacement. -/
def settingsTree : FileTree :=
  ((twoToolsTree.put [] (Text.of "apps.json")
    (.file ⟨Text.Utf8.encode toolManifest.json.compact, 0o644⟩)).put [] (Text.of "own.json")
      (.file ⟨Text.Utf8.encode ownPlaceholder.json.compact, 0o644⟩)).put []
        (Text.of "replaced.json")
        (.file ⟨Text.Utf8.encode (replaced ownPlaceholder shallowArguments).json.compact, 0o644⟩)

/-- The arguments lead the run to the tool in the directory that they give, as the document with
their settings does, and without them another tool is found. -/
theorem settingsTree_answers_through :
    originalSettings settingsTree shallowArguments = .ok ownPlaceholder ∧
      replaced ownPlaceholder shallowArguments =
        ⟨Text.of "$ROOT", [Text.of "tools"], .bounded 2⟩ ∧
      (∀ host verbose, answer settingsTree host ⟨verbose, .prime shallowArguments⟩ =
        answer settingsTree host
          ⟨verbose, .prime (shallowArguments.through (Text.of "/replaced.json"))⟩) ∧
      (answer settingsTree (.named .empty) ⟨false, .prime shallowArguments⟩).stdout =
        Text.of "app.serve: tools/tool --now\n" ∧
      (answer settingsTree (.named .empty)
          ⟨false, .prime (shallowArguments.through (Text.of "/own.json"))⟩).stdout =
        Text.of "app.serve: a/tool --now\n" := by
  have hdocument : (Json.ofBytes? (Text.Utf8.encode ownPlaceholder.json.compact)).bind
      Settings.ofJson? = some ownPlaceholder := by
    rw [Json.ofBytes?_compact (Settings.isSpelled_json _), Option.bind_some]
    refine Settings.ofJson?_json ?_
    intro depth hdepth
    cases hdepth
  have hload : Settings.load settingsTree (Text.of "/own.json") = ownPlaceholder.check :=
    Settings.load_of_read rfl hdocument
  have horiginal : originalSettings settingsTree shallowArguments = .ok ownPlaceholder :=
    hload.trans rfl
  have hreach : ∀ word, shallowArguments.reach? = some word → (reach? word).isSome = true := by
    rintro word ⟨⟩
    rfl
  refine ⟨horiginal, rfl, fun host verbose => ?_, by decide +kernel, by decide +kernel⟩
  obtain ⟨hwritten, hanswer⟩ := answer_through host verbose horiginal hreach
  exact hanswer (Text.of "/replaced.json") _ rfl hwritten

end CommandLine
end EntryPoints
