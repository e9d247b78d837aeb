import Mathlib.Data.List.Forall2
import EntryPoints.Json.Record

/-!
The order of members in objects. Readers of records and choices ask for members by their names, so
they find the same, or values that differ in this order again, in two values that differ in nothing
else. Names have to be distinct: of members with one name, the order would tell which is found.
-/
namespace EntryPoints.Json

mutual

/-- No object of the value has two members of one name. -/
def HasDistinctNames : Json → Prop
  | .array items => AllHaveDistinctNames items
  | .object members => (members.filterMap Prod.fst).Nodup ∧ MembersHaveDistinctNames members
  | _ => True

def AllHaveDistinctNames : List Json → Prop
  | [] => True
  | v :: rest => v.HasDistinctNames ∧ AllHaveDistinctNames rest

def MembersHaveDistinctNames : List (Option Text × Json) → Prop
  | [] => True
  | (_, v) :: rest => v.HasDistinctNames ∧ MembersHaveDistinctNames rest

end

mutual

/-- The second value is the first with the members of its objects in some order. -/
inductive Reordered : Json → Json → Prop where
  | same (v : Json) : Reordered v v
  | array {xs ys : List Json} (hitems : ItemsReordered xs ys) :
      Reordered (.array xs) (.array ys)
  | object {ms moved ns : List (Option Text × Json)} (hmoved : ms.Perm moved)
      (hvalues : ValuesReordered moved ns) : Reordered (.object ms) (.object ns)

inductive ItemsReordered : List Json → List Json → Prop where
  | nil : ItemsReordered [] []
  | cons {v w : Json} {xs ys : List Json} (hfirst : Reordered v w) (hrest : ItemsReordered xs ys) :
      ItemsReordered (v :: xs) (w :: ys)

/-- The members have the same names, one by one, and values that differ in order alone. -/
inductive ValuesReordered : List (Option Text × Json) → List (Option Text × Json) → Prop where
  | nil : ValuesReordered [] []
  | cons (name : Option Text) {v w : Json} {ms ns : List (Option Text × Json)}
      (hfirst : Reordered v w) (hrest : ValuesReordered ms ns) :
      ValuesReordered ((name, v) :: ms) ((name, w) :: ns)

end

theorem allHaveDistinctNames_iff {items : List Json} :
    AllHaveDistinctNames items ↔ ∀ v ∈ items, v.HasDistinctNames := by
  induction items with
  | nil => simp [AllHaveDistinctNames]
  | cons v rest ih => simp [AllHaveDistinctNames, ih]

theorem membersHaveDistinctNames_iff {members : List (Option Text × Json)} :
    MembersHaveDistinctNames members ↔ ∀ m ∈ members, m.2.HasDistinctNames := by
  induction members with
  | nil => simp [MembersHaveDistinctNames]
  | cons m rest ih => simp [MembersHaveDistinctNames, ih]

theorem itemsReordered_refl (items : List Json) : ItemsReordered items items := by
  induction items with
  | nil => exact .nil
  | cons v rest ih => exact .cons (.same v) ih

theorem valuesReordered_refl (members : List (Option Text × Json)) :
    ValuesReordered members members := by
  induction members with
  | nil => exact .nil
  | cons m rest ih => exact .cons m.1 (.same m.2) ih

theorem exists_of_reordered_array {xs : List Json} {w : Json} (h : Reordered (.array xs) w) :
    ∃ ys, w = .array ys ∧ ItemsReordered xs ys := by
  cases h with
  | same => exact ⟨xs, rfl, itemsReordered_refl xs⟩
  | array hitems => exact ⟨_, rfl, hitems⟩

theorem exists_of_reordered_object {ms : List (Option Text × Json)} {w : Json}
    (h : Reordered (.object ms) w) :
    ∃ moved ns, w = .object ns ∧ ms.Perm moved ∧ ValuesReordered moved ns := by
  cases h with
  | same => exact ⟨ms, ms, rfl, .refl ms, valuesReordered_refl ms⟩
  | object hmoved hvalues => exact ⟨_, _, rfl, hmoved, hvalues⟩

/-- The second value is the first up to the order of members, and there names are distinct. -/
def Alike (v w : Json) : Prop := v.HasDistinctNames ∧ v.Reordered w

def AlikeMember (m n : Text × Json) : Prop := m.1 = n.1 ∧ m.2.Alike n.2

def AlikeMembers (ms ns : List (Text × Json)) : Prop :=
  (ms.map Prod.fst).Nodup ∧ ∃ moved, ms.Perm moved ∧ List.Forall₂ AlikeMember moved ns

def named? (m : Option Text × Json) : Option (Text × Json) := m.1.map (·, m.2)

theorem text?_alike {v w : Json} (h : v.Alike w) : v.text? = w.text? := by
  cases h.2 <;> rfl

theorem choice?_of_two (m n : Option Text × Json) (rest : List (Option Text × Json)) :
    (object (m :: n :: rest)).choice? = none := by
  unfold choice?
  split
  · rename_i heq
    cases heq
  · rename_i heq
    cases heq
  · rfl

theorem choice?_alike {v w : Json} (h : v.Alike w) : v.choice? = w.choice? := by
  cases h.2 with
  | same => rfl
  | array hitems => rfl
  | @object ms moved ns hmoved hvalues =>
    -- A choice is the name of a single member, and a single member has one order.
    cases hvalues with
    | nil => rw [hmoved.eq_nil]
    | cons name hfirst hrest =>
      cases hrest with
      | nil =>
        rw [List.perm_singleton.mp hmoved]
        cases name <;> cases hfirst <;> rfl
      | cons name' hsecond hrest =>
        have hlength := hmoved.length_eq
        match ms with
        | [] => cases hlength
        | [m] => cases hlength
        | m :: n :: rest => rw [choice?_of_two, choice?_of_two]

theorem mapM_eq_filterMap {α β : Type} (f : α → Option β) (xs : List α) :
    xs.mapM f = if xs.all (fun x => (f x).isSome) then some (xs.filterMap f) else none := by
  induction xs with
  | nil => rfl
  | cons x xs ih =>
    rw [List.mapM_cons, ih]
    cases hx : f x with
    | none => simp [hx]
    | some y => by_cases hall : xs.all (fun x => (f x).isSome) = true <;> simp [hx, hall]

theorem members?_object (ms : List (Option Text × Json)) :
    (object ms).members? =
      if ms.all (fun m => (named? m).isSome) then some (ms.filterMap named?) else none :=
  mapM_eq_filterMap named? ms

theorem names_filterMap_named? (ms : List (Option Text × Json)) :
    (ms.filterMap named?).map Prod.fst = ms.filterMap Prod.fst := by
  rw [List.map_filterMap]
  congr 1
  funext m
  cases h : m.1 <;> simp [named?, h]

theorem names_of_valuesReordered {ms ns : List (Option Text × Json)} (h : ValuesReordered ms ns) :
    ms.all (fun m => (named? m).isSome) = ns.all fun m => (named? m).isSome := by
  induction ms generalizing ns with
  | nil =>
    cases h
    rfl
  | cons m ms ih =>
    cases h with
    | cons name hfirst hrest =>
      rw [List.all_cons, List.all_cons, ih hrest, named?, named?, Option.isSome_map,
        Option.isSome_map]

theorem forall₂_of_itemsReordered {xs ys : List Json} (h : ItemsReordered xs ys)
    (hdistinct : ∀ v ∈ xs, v.HasDistinctNames) : List.Forall₂ Alike xs ys := by
  induction xs generalizing ys with
  | nil =>
    cases h
    exact .nil
  | cons v xs ih =>
    obtain ⟨hv, hxs⟩ := List.forall_mem_cons.mp hdistinct
    cases h with
    | cons hfirst hrest => exact .cons ⟨hv, hfirst⟩ (ih hrest hxs)

theorem forall₂_of_valuesReordered {ms ns : List (Option Text × Json)} (h : ValuesReordered ms ns)
    (hdistinct : ∀ m ∈ ms, m.2.HasDistinctNames) :
    List.Forall₂ AlikeMember (ms.filterMap named?) (ns.filterMap named?) := by
  induction ms generalizing ns with
  | nil =>
    cases h
    exact .nil
  | cons m ms ih =>
    obtain ⟨hm, hms⟩ := List.forall_mem_cons.mp hdistinct
    cases h with
    | cons name hfirst hrest =>
      rw [List.filterMap_cons, List.filterMap_cons]
      cases name with
      | none => exact ih hrest hms
      | some name => exact .cons ⟨rfl, hm, hfirst⟩ (ih hrest hms)

theorem members?_alike {v w : Json} (h : v.Alike w) :
    Option.Rel AlikeMembers v.members? w.members? := by
  obtain ⟨hdistinct, hreordered⟩ := h
  cases v with
  | object ms =>
    obtain ⟨moved, ns, rfl, hmoved, hvalues⟩ := exists_of_reordered_object hreordered
    obtain ⟨hnodup, hmembers⟩ := hdistinct
    rw [membersHaveDistinctNames_iff] at hmembers
    rw [members?_object, members?_object, hmoved.all_eq, names_of_valuesReordered hvalues]
    split
    · refine .some ⟨?_, moved.filterMap named?, hmoved.filterMap named?, ?_⟩
      · rwa [names_filterMap_named?]
      · apply forall₂_of_valuesReordered hvalues
        intro m hm
        exact hmembers m (hmoved.mem_iff.mpr hm)
    · exact .none
  | array items =>
    obtain ⟨ys, rfl, _⟩ := exists_of_reordered_array hreordered
    exact .none
  | _ =>
    cases hreordered
    exact .none

theorem names_alike {ms ns : List (Text × Json)} (h : AlikeMembers ms ns) :
    (ms.map Prod.fst).Perm (ns.map Prod.fst) := by
  obtain ⟨_, moved, hmoved, hvalues⟩ := h
  have hnames : moved.map Prod.fst = ns.map Prod.fst := by
    clear hmoved
    induction hvalues with
    | nil => rfl
    | cons hfirst hrest ih => rw [List.map_cons, List.map_cons, hfirst.1, ih]
  rw [← hnames]
  exact hmoved.map Prod.fst

theorem find?_name_eq_some_iff {ms : List (Text × Json)} (h : (ms.map Prod.fst).Nodup) {name : Text}
    {v : Json} : (ms.find? (·.1 = name)).map Prod.snd = some v ↔ (name, v) ∈ ms := by
  induction ms with
  | nil => simp
  | cons m ms ih =>
    obtain ⟨hm, hms⟩ := List.nodup_cons.mp h
    by_cases hname : m.1 = name
    · subst hname
      have hnot : (m.1, v) ∉ ms := by
        intro hv
        exact hm (List.mem_map.mpr ⟨(m.1, v), hv, rfl⟩)
      simp [hnot, Prod.ext_iff, eq_comm]
    · have hne : (name, v) ≠ m := by
        rintro rfl
        exact hname rfl
      rw [List.find?_cons_of_neg (by simpa using hname), ih hms, List.mem_cons]
      simp [hne]

theorem find?_alike {ms ns : List (Text × Json)} (h : AlikeMembers ms ns) (name : Text) :
    Option.Rel Alike ((ms.find? (·.1 = name)).map Prod.snd)
      ((ns.find? (·.1 = name)).map Prod.snd) := by
  obtain ⟨hnodup, moved, hmoved, hvalues⟩ := h
  have hnodup' : (moved.map Prod.fst).Nodup := (hmoved.map Prod.fst).nodup_iff.mp hnodup
  have hfound : (ms.find? (·.1 = name)).map Prod.snd = (moved.find? (·.1 = name)).map Prod.snd := by
    apply Option.ext
    intro v
    rw [find?_name_eq_some_iff hnodup, find?_name_eq_some_iff hnodup', hmoved.mem_iff]
  rw [hfound]
  clear hnodup hnodup' hmoved hfound
  -- Now the members stand side by side, and a name is met in both lists at once.
  induction hvalues with
  | nil => exact .none
  | @cons m n moved ns hfirst hrest ih =>
    by_cases hname : m.1 = name
    · have hname' : n.1 = name := hfirst.1 ▸ hname
      rw [List.find?_cons_of_pos (by simpa using hname),
        List.find?_cons_of_pos (by simpa using hname')]
      exact .some hfirst.2
    · have hname' : ¬ n.1 = name := hfirst.1 ▸ hname
      rwa [List.find?_cons_of_neg (by simpa using hname),
        List.find?_cons_of_neg (by simpa using hname')]

theorem fields?_alike {v w : Json} (h : v.Alike w) (names : List Text) :
    Option.Rel (List.Forall₂ (Option.Rel Alike)) (v.fields? names) (w.fields? names) := by
  cases v with
  | array items =>
    -- Items keep their order, so the fields are the items, in both values.
    obtain ⟨ys, rfl, hitems⟩ := exists_of_reordered_array h.2
    have halike : List.Forall₂ Alike items ys :=
      forall₂_of_itemsReordered hitems (allHaveDistinctNames_iff.mp h.1)
    rw [fields?, fields?, halike.length_eq]
    split
    · refine .some (List.rel_append ?_ ?_)
      · exact List.rel_map (fun _ _ hv => .some hv) halike
      · exact List.forall₂_same.mpr fun v hv => (List.eq_of_mem_replicate hv) ▸ .none
    · exact .none
  | object ms =>
    obtain ⟨moved, ns, rfl, _, _⟩ := exists_of_reordered_object h.2
    have hmembers := members?_alike h
    generalize hv : (object ms).members? = v? at hmembers
    generalize hw : (object ns).members? = w? at hmembers
    cases hmembers with
    | none => simp only [fields?, hv, hw]; exact .none
    | @some ms' ns' hms =>
      -- Which names there are decides whether the record is read, and not where they stand.
      have hnames := names_alike hms
      have hknown : ms'.all (fun m => names.contains m.1) =
          ns'.all fun m => names.contains m.1 := by
        have hall := hnames.all_eq (f := names.contains)
        rwa [List.all_map, List.all_map] at hall
      simp only [fields?, hv, hw, Option.bind_eq_bind, Option.bind_some, hknown, hnames.nodup_iff]
      split
      · refine .some ?_
        rw [List.forall₂_map_left_iff, List.forall₂_map_right_iff, List.forall₂_same]
        intro name _
        exact find?_alike hms name
      · exact .none
  | _ =>
    cases h.2
    exact .none

end EntryPoints.Json
