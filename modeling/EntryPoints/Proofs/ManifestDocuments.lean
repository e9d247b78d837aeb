import EntryPoints.CommandLine.Outcome
import EntryPoints.Proofs.ByteOrder
import EntryPoints.Proofs.Independence
import EntryPoints.Proofs.MemberOrder
import EntryPoints.Proofs.WrittenJson

/-!
Manifests as documents. A manifest that is written down is read again as it was, and the order in
which a document gives the members of its objects does not matter: tables keep the order of their
names, and a record is asked for its fields by their names.
-/
namespace EntryPoints

namespace Json

def HasMember (v : Json) (name : Text) (value : Json) : Prop :=
  ∃ members, v = .object members ∧ (some name, value) ∈ members

/-- The record `v` has the value under the name, or in the place of the name. -/
def HasField (names : List Text) (v : Json) (name : Text) (value : Json) : Prop :=
  v.HasMember name value ∨ ∃ items, v = .array items ∧ (name, value) ∈ names.zip items

variable {v value : Json} {name : Text} {names : List Text}

theorem HasMember.hasDistinctNames (h : v.HasMember name value) (hv : v.HasDistinctNames) :
    value.HasDistinctNames := by
  obtain ⟨members, rfl, hmember⟩ := h
  exact membersHaveDistinctNames_iff.mp hv.2 _ hmember

theorem HasField.hasDistinctNames (h : HasField names v name value) (hv : v.HasDistinctNames) :
    value.HasDistinctNames := by
  rcases h with h | ⟨items, rfl, hitem⟩
  · exact h.hasDistinctNames hv
  · exact allHaveDistinctNames_iff.mp hv _ (List.of_mem_zip hitem).2

theorem mem_members?_iff {members : List (Text × Json)} (h : v.members? = some members) :
    (name, value) ∈ members ↔ v.HasMember name value := by
  cases v with
  | object ms =>
    rw [members?_object] at h
    split at h
    · obtain rfl := Option.some.inj h
      simp [HasMember, named?, Prod.ext_iff]
    · cases h
  | _ => cases h

theorem nodup_of_members? {members : List (Text × Json)} (h : v.members? = some members)
    (hv : v.HasDistinctNames) : (members.map Prod.fst).Nodup := by
  cases v with
  | object ms =>
    rw [members?_object] at h
    split at h
    · obtain rfl := Option.some.inj h
      rw [names_filterMap_named?]
      exact hv.1
    · cases h
  | _ => cases h

theorem mem_zip_padded_iff {items : List Json} (h : items.length ≤ names.length) :
    (name, some value) ∈
        names.zip (items.map some ++ List.replicate (names.length - items.length) none) ↔
      (name, value) ∈ names.zip items := by
  -- Items and names are used up together; what pads the items has no value.
  induction items generalizing names with
  | nil =>
    have hnone : ∀ n, (name, some value) ∉ names.zip (List.replicate n none) := by
      intro n hmem
      cases List.eq_of_mem_replicate (List.of_mem_zip hmem).2
    simp [hnone]
  | cons item items ih =>
    cases names with
    | nil => simp at h
    | cons first names =>
      have hlength : items.length ≤ names.length := by simpa using h
      simpa using or_congr_right (ih hlength)

theorem mem_zip_map_iff {α β : Type} {xs : List α} {f : α → β} {x : α} {y : β} :
    (x, y) ∈ xs.zip (xs.map f) ↔ x ∈ xs ∧ f x = y := by
  have hzip : xs.zip (xs.map f) = xs.map fun x => (x, f x) := by
    simpa using List.zip_map' (l := xs) (f := id) (g := f)
  rw [hzip, List.mem_map]
  constructor
  · rintro ⟨_, hx, ⟨rfl, rfl⟩⟩
    exact ⟨hx, rfl⟩
  · rintro ⟨hx, rfl⟩
    exact ⟨x, hx, rfl⟩

/-- A record that can be read has the fields that it gives. -/
theorem mem_fields?_iff {fields : List (Option Json)} (h : v.fields? names = some fields) :
    (name, some value) ∈ names.zip fields ↔ HasField names v name value := by
  cases v with
  | array items =>
    simp only [fields?] at h
    split at h
    · rename_i hlength
      obtain rfl := Option.some.inj h
      rw [mem_zip_padded_iff hlength]
      simp [HasField, HasMember]
    · cases h
  | object ms =>
    obtain ⟨members, hmembers, h⟩ := Option.bind_eq_some_iff.mp h
    split at h
    · rename_i hfit
      obtain rfl := Option.some.inj h
      obtain ⟨hknown, hnodup⟩ := Bool.and_eq_true_iff.mp hfit
      have hname : (name, value) ∈ members → name ∈ names := fun hmember => by
        simpa using List.all_eq_true.mp hknown _ hmember
      rw [mem_zip_map_iff, find?_name_eq_some_iff (of_decide_eq_true hnodup),
        and_iff_right_of_imp hname, mem_members?_iff hmembers]
      simp [HasField]
    · cases h
  | _ => cases h

end Json

namespace Manifest
open Json (Alike HasField HasMember)

section Tables

variable {α : Type} {value? : Json → Option α}

def keyed? (value? : Json → Option α) (m : Text × Json) : Option (Text × α) :=
  (value? m.2).map (m.1, ·)

theorem tableOfJson?_eq (v : Json) :
    tableOfJson? value? v = v.members?.bind fun members =>
      if members.all (fun m => (keyed? value? m).isSome) then
        some (.ofList (members.filterMap (keyed? value?)))
      else none := by
  unfold tableOfJson?
  congr 1
  funext members
  have hread := Json.mapM_eq_filterMap (keyed? value?) members
  unfold keyed? at hread ⊢
  rw [hread]
  split <;> rfl

theorem nodup_entries {members : List (Text × Json)} (h : (members.map Prod.fst).Nodup) :
    ((members.filterMap (keyed? value?)).map Prod.fst).Nodup := by
  refine List.Nodup.sublist ?_ h
  clear h
  induction members with
  | nil => exact .slnil
  | cons m members ih =>
    rw [List.filterMap_cons]
    cases hm : value? m.2 with
    | none => simpa [keyed?, hm] using ih.cons m.1
    | some a => simpa [keyed?, hm] using ih

/-- A table that can be read has an entry for every member, where no name comes twice. -/
theorem find?_tableOfJson? {v : Json} {t : Table Text α} (h : tableOfJson? value? v = some t)
    (hv : v.HasDistinctNames) {name : Text} {a : α} :
    t.find? name = some a ↔ ∃ value, v.HasMember name value ∧ value? value = some a := by
  rw [tableOfJson?_eq] at h
  obtain ⟨members, hmembers, h⟩ := Option.bind_eq_some_iff.mp h
  split at h
  · obtain rfl := Option.some.inj h
    rw [Table.find?_ofList_iff (nodup_entries (Json.nodup_of_members? hmembers hv)),
      List.mem_filterMap]
    constructor
    · rintro ⟨⟨name', value⟩, hmember, hentry⟩
      obtain ⟨a', ha, heq⟩ := Option.map_eq_some_iff.mp hentry
      obtain ⟨rfl, rfl⟩ := Prod.mk.inj heq
      exact ⟨value, (Json.mem_members?_iff hmembers).mp hmember, ha⟩
    · rintro ⟨value, hmember, ha⟩
      exact ⟨(name, value), (Json.mem_members?_iff hmembers).mpr hmember, by simp [keyed?, ha]⟩
  · cases h

theorem fits_of_tableOfJson? {v : Json} {t : Table Text α} (h : tableOfJson? value? v = some t)
    {name : Text} {value : Json} (hmember : v.HasMember name value) :
    ∃ a, value? value = some a := by
  rw [tableOfJson?_eq] at h
  obtain ⟨members, hmembers, h⟩ := Option.bind_eq_some_iff.mp h
  split at h
  · rename_i hall
    have hfits := List.all_eq_true.mp hall _ ((Json.mem_members?_iff hmembers).mpr hmember)
    exact Option.isSome_iff_exists.mp (by simpa [keyed?] using hfits)
  · cases h

theorem tableOfJson?_alike (hvalue : ∀ v w, Alike v w → value? v = value? w) {v w : Json}
    (h : v.Alike w) : tableOfJson? value? v = tableOfJson? value? w := by
  rw [tableOfJson?_eq, tableOfJson?_eq]
  have hmembers := Json.members?_alike h
  generalize v.members? = v? at hmembers
  generalize w.members? = w? at hmembers
  cases hmembers with
  | none => rfl
  | @some ms ns hms =>
    obtain ⟨hnodup, moved, hmoved, hvalues⟩ := hms
    -- First the members are moved, which a table does not notice, and then their values change.
    have hentries : List.Forall₂ (fun m n => keyed? value? m = keyed? value? n) moved ns := by
      apply hvalues.imp
      intro m n hmn
      rw [keyed?, keyed?, hmn.1, hvalue _ _ hmn.2]
    have hread : moved.all (fun m => (keyed? value? m).isSome) =
          ns.all (fun m => (keyed? value? m).isSome) ∧
        moved.filterMap (keyed? value?) = ns.filterMap (keyed? value?) := by
      clear hmoved hvalues
      induction hentries with
      | nil => exact ⟨rfl, rfl⟩
      | cons hfirst hrest ih =>
        rw [List.all_cons, List.all_cons, List.filterMap_cons, List.filterMap_cons, hfirst, ih.1,
          ih.2]
        exact ⟨rfl, rfl⟩
    have htable := Table.ofList_perm (hmoved.filterMap (keyed? value?)) (nodup_entries hnodup)
    simp only [Option.bind_some]
    rw [hmoved.all_eq, htable, hread.1, hread.2]

theorem tableOfJson?_tableJson {value : α → Json} (hvalue : ∀ a, value? (value a) = some a)
    (t : Table Text α) : tableOfJson? value? (tableJson value t) = some t := by
  have hmembers : (tableJson value t).members? =
      some (t.entries.map fun e => (e.1, value e.2)) := by
    rw [tableJson, Json.members?_object]
    simp [Json.named?, List.filterMap_map, Function.comp_def]
  rw [tableOfJson?_eq, hmembers, Option.bind_some]
  simp [keyed?, List.filterMap_map, Function.comp_def, hvalue, Table.ofList_entries]

end Tables

variable {v w : Json} {m : Manifest}

theorem adapterOfJson?_alike (h : v.Alike w) : adapterOfJson? v = adapterOfJson? w := by
  rw [adapterOfJson?, adapterOfJson?, Json.choice?_alike h]

theorem appOfJson?_alike (h : v.Alike w) : appOfJson? v = appOfJson? w := by
  have hfields := Json.fields?_alike h [Text.of "adapter", Text.of "commands"]
  unfold appOfJson?
  generalize v.fields? _ = v? at hfields ⊢
  generalize w.fields? _ = w? at hfields ⊢
  cases hfields with
  | none => rfl
  | some hfields =>
    rcases hfields with _ | ⟨hadapter, _ | ⟨hcommands, _ | _⟩⟩
    · rfl
    · rfl
    · cases hcommands with
      | none => rfl
      | some hcommands =>
        have htable := tableOfJson?_alike (fun _ _ => Json.text?_alike) hcommands
        cases hadapter with
        | none => simp only [Option.bind_eq_bind, Option.bind_some, htable]
        | some hadapter =>
          simp only [Option.bind_eq_bind, Option.bind_some, Option.elim_some, htable,
            adapterOfJson?_alike hadapter]
    · cases hcommands <;> rfl

theorem ofJson?_alike (h : v.Alike w) : ofJson? v = ofJson? w := by
  have hfields := Json.fields?_alike h [Text.of "apps"]
  unfold ofJson?
  generalize v.fields? _ = v? at hfields ⊢
  generalize w.fields? _ = w? at hfields ⊢
  cases hfields with
  | none => rfl
  | some hfields =>
    rcases hfields with _ | ⟨happs, _ | _⟩
    · rfl
    · cases happs with
      | none => rfl
      | some happs =>
        have htable := tableOfJson?_alike (fun _ _ => appOfJson?_alike) happs
        simp only [Option.bind_eq_bind, Option.bind_some, htable]
    · cases happs <;> rfl

theorem adapterOfJson?_text (adapter : Adapter) :
    adapterOfJson? (.text adapter.text) = some adapter := by
  cases adapter <;> rfl

theorem appOfJson?_appJson (a : App) : appOfJson? (appJson a) = some a := by
  have hfields : (appJson a).fields? [Text.of "adapter", Text.of "commands"] =
      some [some (.text a.adapter.text), some (tableJson .text a.commands)] := rfl
  have htext (t : Text) : Json.text? (Json.text t) = some t := rfl
  have hcommands := tableOfJson?_tableJson htext a.commands
  simp only [appOfJson?, hfields, Option.bind_eq_bind, Option.bind_some, Option.elim_some,
    adapterOfJson?_text, hcommands]

theorem ofJson?_json (m : Manifest) : ofJson? m.json = some m := by
  have hfields : m.json.fields? [Text.of "apps"] = some [some (tableJson appJson m.apps)] := rfl
  have happs := tableOfJson?_tableJson appOfJson?_appJson m.apps
  simp only [ofJson?, hfields, Option.bind_eq_bind, Option.bind_some, happs, Option.map_some]

theorem isSpelled_tableJson {α : Type} {value : α → Json} (h : ∀ a, (value a).IsSpelled)
    (t : Table Text α) : (tableJson value t).IsSpelled := by
  show Json.AllMembersSpelled _
  induction t.entries with
  | nil => trivial
  | cons e es ih => exact ⟨rfl, h e.2, ih⟩

theorem isSpelled_json (m : Manifest) : m.json.IsSpelled := by
  have htext (t : Text) : (Json.text t).IsSpelled := rfl
  have happ (a : App) : (appJson a).IsSpelled :=
    ⟨rfl, htext a.adapter.text, rfl, isSpelled_tableJson htext a.commands, trivial⟩
  exact ⟨rfl, isSpelled_tableJson happ m.apps, trivial⟩

theorem hasDistinctNames_tableJson {α : Type} {value : α → Json}
    (h : ∀ a, (value a).HasDistinctNames) (t : Table Text α) :
    (tableJson value t).HasDistinctNames := by
  constructor
  · have hkeys := t.nodup_keys
    simpa [Table.keys, List.filterMap_map, Function.comp_def] using hkeys
  · rw [Json.membersHaveDistinctNames_iff]
    intro member hmember
    obtain ⟨entry, _, rfl⟩ := List.mem_map.mp hmember
    exact h entry.2

theorem hasDistinctNames_json (m : Manifest) : m.json.HasDistinctNames := by
  have htext (t : Text) : (Json.text t).HasDistinctNames := trivial
  have happ (a : App) : (appJson a).HasDistinctNames :=
    ⟨by simp [Json.member, show Text.of "adapter" ≠ Text.of "commands" by decide], trivial,
      hasDistinctNames_tableJson htext a.commands, trivial⟩
  exact ⟨by simp [Json.member], hasDistinctNames_tableJson happ m.apps, trivial⟩

/-- The document gives the application this entry point, with this command. -/
def DeclaredIn (v : Json) (app name command : Text) : Prop :=
  ∃ apps a commands, HasField [Text.of "apps"] v (Text.of "apps") apps ∧ apps.HasMember app a ∧
    HasField [Text.of "adapter", Text.of "commands"] a (Text.of "commands") commands ∧
    commands.HasMember name (.text command)

theorem exists_of_appOfJson? {a : App} (h : appOfJson? v = some a) :
    ∃ commands, (∀ value, HasField [Text.of "adapter", Text.of "commands"] v (Text.of "commands")
        value ↔ value = commands) ∧ tableOfJson? Json.text? commands = some a.commands := by
  obtain ⟨fields, hfields, h⟩ := Option.bind_eq_some_iff.mp h
  split at h
  · rename_i adapter commands
    obtain ⟨adapter', _, h⟩ := Option.bind_eq_some_iff.mp h
    obtain ⟨table, htable, h⟩ := Option.bind_eq_some_iff.mp h
    obtain rfl := Option.some.inj h
    refine ⟨commands, fun value => ?_, htable⟩
    rw [← Json.mem_fields?_iff hfields]
    simp [show Text.of "commands" ≠ Text.of "adapter" by decide]
  · cases h

theorem exists_of_ofJson? (h : ofJson? v = some m) :
    ∃ apps, (∀ value, HasField [Text.of "apps"] v (Text.of "apps") value ↔ value = apps) ∧
      tableOfJson? appOfJson? apps = some m.apps := by
  obtain ⟨fields, hfields, h⟩ := Option.bind_eq_some_iff.mp h
  split at h
  · rename_i apps
    obtain ⟨table, htable, rfl⟩ := Option.map_eq_some_iff.mp h
    refine ⟨apps, fun value => ?_, htable⟩
    rw [← Json.mem_fields?_iff hfields]
    simp
  · cases h

theorem text?_eq_some_iff {value : Json} {t : Text} :
    value.text? = some t ↔ value = .text t := by
  cases value <;> simp [Json.text?, Json.text]

theorem declaredIn_iff (h : ofJson? v = some m) (hv : v.HasDistinctNames)
    {app name command : Text} :
    DeclaredIn v app name command ↔ ∃ adapter, m.Declares app name command adapter := by
  obtain ⟨apps, happs, hread⟩ := exists_of_ofJson? h
  have hdistinct : apps.HasDistinctNames := ((happs apps).mpr rfl).hasDistinctNames hv
  constructor
  · rintro ⟨_, value, commands, hfield, happ, hcommands, hcommand⟩
    obtain rfl := (happs _).mp hfield
    -- The manifest was read, so every application of the document was.
    obtain ⟨a, ha⟩ := fits_of_tableOfJson? hread happ
    obtain ⟨_, hgiven, hread'⟩ := exists_of_appOfJson? ha
    obtain rfl := (hgiven _).mp hcommands
    have hdistinct' := hcommands.hasDistinctNames (happ.hasDistinctNames hdistinct)
    refine ⟨a.adapter, a, (find?_tableOfJson? hread hdistinct).mpr ⟨value, happ, ha⟩, rfl, ?_⟩
    exact (find?_tableOfJson? hread' hdistinct').mpr ⟨_, hcommand, rfl⟩
  · rintro ⟨_, a, hfound, rfl, hcommand⟩
    obtain ⟨value, happ, ha⟩ := (find?_tableOfJson? hread hdistinct).mp hfound
    obtain ⟨commands, hgiven, hread'⟩ := exists_of_appOfJson? ha
    have hcommands := (hgiven commands).mpr rfl
    have hdistinct' := hcommands.hasDistinctNames (happ.hasDistinctNames hdistinct)
    obtain ⟨_, hmember, htext⟩ := (find?_tableOfJson? hread' hdistinct').mp hcommand
    obtain rfl := text?_eq_some_iff.mp htext
    exact ⟨apps, value, commands, (happs apps).mpr rfl, happ, hcommands, hmember⟩

/-- One pair of names stands before another where their bytes do. -/
def BytesPrecede (a b : Names) : Prop :=
  Text.Utf8.encode a.1 < Text.Utf8.encode b.1 ∨
    a.1 = b.1 ∧ Text.Utf8.encode a.2 < Text.Utf8.encode b.2

/-- The manifest lists the entry points that the document declares, in the order of their names'
bytes, so that no pair of names comes twice. -/
structure Lists (m : Manifest) (v : Json) : Prop where
  ascending : m.entryPoints.Pairwise fun a b => BytesPrecede a.1.names b.1.names
  declared (app name command : Text) :
    DeclaredIn v app name command ↔
      ∃ adapter, (EntryPoint.declare app name command, adapter) ∈ m.entryPoints

theorem lists_of_ofJson? (h : ofJson? v = some m) (hv : v.HasDistinctNames) : m.Lists v where
  ascending := by
    apply m.ordered_entryPoints.imp
    rintro a b (hlt | ⟨heq, hlt⟩)
    · exact .inl (Text.Utf8.encode_lt hlt)
    · exact .inr ⟨heq, Text.Utf8.encode_lt hlt⟩
  declared app name command := by
    rw [declaredIn_iff h hv]
    apply exists_congr
    intro adapter
    constructor
    · intro hdeclared
      exact mem_entryPoints_iff.mpr ⟨app, name, command, adapter, hdeclared, rfl⟩
    · intro hmem
      obtain ⟨_, _, _, _, hdeclared, heq⟩ := mem_entryPoints_iff.mp hmem
      cases heq
      exact hdeclared

section Loading

variable {files files' : FileTree} {path path' : Path} {document document' : List UInt8}

theorem load_of_read (h : files.read path = .ok document) :
    load files path =
      ((Json.ofBytes? document).bind ofJson?).elim (.error .malformedManifest) .ok := by
  rw [load, h]
  dsimp only
  cases (Json.ofBytes? document).bind ofJson? <;> rfl

theorem load_of_written {m : Manifest}
    (h : files.read path = .ok (Text.Utf8.encode m.json.compact)) : load files path = .ok m := by
  rw [load_of_read h, Json.ofBytes?_compact m.isSpelled_json, Option.bind_some, ofJson?_json]
  rfl

theorem load_of_alike (hread : files.read path = .ok document)
    (hread' : files'.read path' = .ok document')
    (halike : Option.Rel Alike (Json.ofBytes? document) (Json.ofBytes? document')) :
    load files path = load files' path' := by
  rw [load_of_read hread, load_of_read hread']
  generalize Json.ofBytes? document = v? at halike ⊢
  generalize Json.ofBytes? document' = w? at halike ⊢
  cases halike with
  | none => rfl
  | some halike => rw [Option.bind_some, Option.bind_some, ofJson?_alike halike]

/-- Two documents load alike: they are both refused, or give one manifest, which lists what the
first declares. With either of them a run does the same. -/
structure LoadAlike (files files' : FileTree) (path path' : Path) (document : List UInt8) :
    Prop where
  loaded : (∃ f, load files path = .error f ∧ load files' path' = .error f ∧
      f.message = Text.of "parse apps JSON") ∨
    ∃ m v, load files path = .ok m ∧ load files' path' = .ok m ∧
      Json.ofBytes? document = some v ∧ m.Lists v
  primed (s : Stage) (tree : FileTree) :
    (load files path).map (Run.ofManifest s tree) = (load files' path').map (Run.ofManifest s tree)
  answered (h : files' = files) (host : Host) (verbose : Bool)
      (a : CommandLine.PrimeArguments) :
    CommandLine.answer files host ⟨verbose, .prime { a with manifest := path }⟩ =
      CommandLine.answer files host ⟨verbose, .prime { a with manifest := path' }⟩

theorem loadAlike_of_alike (hread : files.read path = .ok document)
    (hread' : files'.read path' = .ok document')
    (halike : Option.Rel Alike (Json.ofBytes? document) (Json.ofBytes? document')) :
    LoadAlike files files' path path' document where
  loaded := by
    rw [← load_of_alike hread hread' halike, load_of_read hread]
    cases hjson : Json.ofBytes? document with
    | none => exact .inl ⟨_, rfl, rfl, rfl⟩
    | some v =>
      rw [Option.bind_some]
      cases hm : ofJson? v with
      | none => exact .inl ⟨_, rfl, rfl, rfl⟩
      | some m =>
        refine .inr ⟨m, v, rfl, rfl, rfl, lists_of_ofJson? hm ?_⟩
        rw [hjson] at halike
        generalize Json.ofBytes? document' = w? at halike
        cases halike with
        | some halike => exact halike.1
  primed s tree := by rw [load_of_alike hread hread' halike]
  answered h host verbose a := by
    subst h
    have hload := load_of_alike hread hread' halike
    simp only [CommandLine.answer, CommandLine.prime, CommandLine.prepare, CommandLine.settings,
      CommandLine.applyArguments, hload]

/-- A manifest that is written down is loaded as it was, and documents that differ in nothing but
the order of members are loaded alike. -/
theorem load_written_or_reordered :
    (∀ (m : Manifest) (files : FileTree) (path : Path),
      files.read path = .ok (Text.Utf8.encode m.json.compact) → load files path = .ok m) ∧
    ∀ (files files' : FileTree) (path path' : Path) (document document' : List UInt8),
      files.read path = .ok document → files'.read path' = .ok document' →
      Option.Rel Alike (Json.ofBytes? document) (Json.ofBytes? document') →
      LoadAlike files files' path path' document := by
  constructor
  · intro m files path hread
    exact load_of_written hread
  · intro files files' path path' document document' hread hread' halike
    exact loadAlike_of_alike hread hread' halike

/-- One application with two commands, one of which needs escapes. -/
def twoCommands : Manifest :=
  ⟨.ofList [(Text.of "web", ⟨.verbatim,
    .ofList [(Text.of "run", Text.of "bin/run"), (Text.of "stop", Text.of "say \"\t\"")]⟩)]⟩

def swappedDocument : Json :=
  .object [Json.member "apps" (.object [Json.member "web" (.object [
    Json.member "commands" (.object [Json.member "stop" (.text (Text.of "say \"\t\"")),
      Json.member "run" (.text (Text.of "bin/run"))]),
    Json.member "adapter" (.text (Text.of "none"))])])]

theorem alike_swappedDocument : twoCommands.json.Alike swappedDocument := by
  refine ⟨twoCommands.hasDistinctNames_json, ?_⟩
  exact .object (.refl _) (.cons _ (.object (.refl _) (.cons _ (.object (.swap ..)
    (.cons _ (.object (.swap ..) (Json.valuesReordered_refl _)) (.cons _ (.same _) .nil))) .nil))
    .nil)

def documentTree : FileTree :=
  (FileTree.empty.put [] (Text.of "apps.json")
    (.file ⟨Text.Utf8.encode twoCommands.json.compact, 0o644⟩)).put [] (Text.of "swapped.json")
      (.file ⟨Text.Utf8.encode swappedDocument.compact, 0o644⟩)

theorem documentTree_loads :
    load documentTree (Text.of "/apps.json") = .ok twoCommands ∧
      LoadAlike documentTree documentTree (Text.of "/apps.json") (Text.of "/swapped.json")
        (Text.Utf8.encode twoCommands.json.compact) ∧
      load documentTree (Text.of "/swapped.json") = .ok twoCommands := by
  have hread : documentTree.read (Text.of "/apps.json") =
      .ok (Text.Utf8.encode twoCommands.json.compact) := rfl
  have hread' : documentTree.read (Text.of "/swapped.json") =
      .ok (Text.Utf8.encode swappedDocument.compact) := rfl
  have hspelled : swappedDocument.IsSpelled :=
    ⟨rfl, ⟨rfl, ⟨rfl, ⟨rfl, rfl, rfl, rfl, trivial⟩, rfl, rfl, trivial⟩, trivial⟩, trivial⟩
  have halike : Option.Rel Alike (Json.ofBytes? (Text.Utf8.encode twoCommands.json.compact))
      (Json.ofBytes? (Text.Utf8.encode swappedDocument.compact)) := by
    rw [Json.ofBytes?_compact twoCommands.isSpelled_json, Json.ofBytes?_compact hspelled]
    exact .some alike_swappedDocument
  have hloads := load_written_or_reordered.1 twoCommands documentTree _ hread
  have hloadsAlike := load_written_or_reordered.2 _ _ _ _ _ _ hread hread' halike
  exact ⟨hloads, hloadsAlike, (load_of_alike hread hread' halike).symm.trans hloads⟩

end Loading

end Manifest
end EntryPoints
