import EntryPoints.Key

/-!
Finite maps whose entries stand in increasing order of their keys, each key once. The order is
part of the type, so two maps that answer alike are equal.
-/
namespace EntryPoints

structure Table (κ α : Type) [LT κ] where
  entries : List (κ × α)
  ordered : entries.Pairwise fun a b => a.1 < b.1
  deriving DecidableEq, Repr

namespace Table

variable {κ α : Type} [LT κ] [DecidableEq κ]

def empty : Table κ α := ⟨[], .nil⟩

instance : Inhabited (Table κ α) := ⟨empty⟩

def lookup (k : κ) : List (κ × α) → Option α
  | [] => none
  | (k', v) :: rest => if k = k' then some v else lookup k rest

def find? (t : Table κ α) (k : κ) : Option α := lookup k t.entries

def keys (t : Table κ α) : List κ := t.entries.map Prod.fst

theorem find?_empty (k : κ) : (empty : Table κ α).find? k = none := rfl

omit [LT κ] in
theorem mem_of_lookup {k : κ} {v : α} {es : List (κ × α)} (h : lookup k es = some v) :
    (k, v) ∈ es := by
  induction es with
  | nil => simp [lookup] at h
  | cons e es ih =>
    by_cases hk : k = e.1
    · have hv : e.2 = v := by simpa [lookup, hk] using h
      exact List.mem_cons.mpr (.inl (by rw [hk, ← hv]))
    · exact List.mem_cons_of_mem _ (ih (by simpa [lookup, hk] using h))

section Order
variable [Key κ]

theorem lookup_eq_none_of_lt {k : κ} {es : List (κ × α)} (h : ∀ e ∈ es, k < e.1) :
    lookup k es = none := by
  induction es with
  | nil => rfl
  | cons e es ih =>
    have hk : k ≠ e.1 := fun heq => Key.irrefl k (heq ▸ h e List.mem_cons_self)
    simpa [lookup, hk] using ih fun x hx => h x (List.mem_cons_of_mem _ hx)

theorem lookup_of_mem {k : κ} {v : α} {es : List (κ × α)}
    (hes : es.Pairwise fun a b => a.1 < b.1) (h : (k, v) ∈ es) : lookup k es = some v := by
  induction es with
  | nil => cases h
  | cons e es ih =>
    obtain ⟨first, rest⟩ := List.pairwise_cons.mp hes
    rcases List.mem_cons.mp h with rfl | h
    · simp [lookup]
    · have hk : k ≠ e.1 := fun heq => Key.irrefl k (heq ▸ first (k, v) h)
      simpa [lookup, hk] using ih rest h

theorem mem_entries_iff {t : Table κ α} {k : κ} {v : α} :
    (k, v) ∈ t.entries ↔ t.find? k = some v :=
  ⟨lookup_of_mem t.ordered, mem_of_lookup⟩

theorem entries_eq_of_lookup_eq {es fs : List (κ × α)}
    (he : es.Pairwise fun a b => a.1 < b.1) (hf : fs.Pairwise fun a b => a.1 < b.1)
    (h : ∀ k, lookup k es = lookup k fs) : es = fs := by
  induction es generalizing fs with
  | nil =>
    cases fs with
    | nil => rfl
    | cons f fs => simpa [lookup] using h f.1
  | cons e es ih =>
    cases fs with
    | nil => simpa [lookup] using h e.1
    | cons f fs =>
      obtain ⟨efirst, erest⟩ := List.pairwise_cons.mp he
      obtain ⟨ffirst, frest⟩ := List.pairwise_cons.mp hf
      have keys : e.1 = f.1 := by
        -- The smaller of two different first keys would be in one list alone.
        refine Key.connected (fun hlt => ?_) fun hlt => ?_
        · have hnone : lookup e.1 (f :: fs) = none := lookup_eq_none_of_lt fun x hx =>
            (List.mem_cons.mp hx).elim (fun hx => hx ▸ hlt) fun hx => Key.trans hlt (ffirst x hx)
          simpa [lookup] using (h e.1).trans hnone
        · have hnone : lookup f.1 (e :: es) = none := lookup_eq_none_of_lt fun x hx =>
            (List.mem_cons.mp hx).elim (fun hx => hx ▸ hlt) fun hx => Key.trans hlt (efirst x hx)
          simpa [lookup] using (h f.1).symm.trans hnone
      have values : e.2 = f.2 := by simpa [lookup, keys] using h e.1
      have tails : es = fs := by
        refine ih erest frest fun k => ?_
        by_cases hk : k = e.1
        · subst hk
          rw [lookup_eq_none_of_lt efirst, keys, lookup_eq_none_of_lt ffirst]
        · have hk' : k ≠ f.1 := keys ▸ hk
          simpa [lookup, hk, hk'] using h k
      rw [tails, Prod.ext keys values]

theorem ext_find? {t u : Table κ α} (h : ∀ k, t.find? k = u.find? k) : t = u := by
  cases t with
  | mk es he =>
    cases u with
    | mk fs hf => simp only [entries_eq_of_lookup_eq he hf h]

end Order

variable [DecidableLT κ]

/-- The entries with `k` leading to `v`, in the place that the order gives it. -/
def insertEntry (k : κ) (v : α) : List (κ × α) → List (κ × α)
  | [] => [(k, v)]
  | (k', v') :: rest =>
    if k = k' then (k, v) :: rest
    else if k < k' then (k, v) :: (k', v') :: rest
    else (k', v') :: insertEntry k v rest

theorem mem_insertEntry {k : κ} {v : α} {es : List (κ × α)} {e : κ × α}
    (h : e ∈ insertEntry k v es) : e = (k, v) ∨ e ∈ es := by
  induction es with
  | nil => simpa [insertEntry] using h
  | cons x xs ih =>
    simp only [insertEntry] at h
    split at h
    · exact (List.mem_cons.mp h).imp_right (List.mem_cons_of_mem _)
    · split at h
      · exact List.mem_cons.mp h
      · rcases List.mem_cons.mp h with h | h
        · exact .inr (List.mem_cons.mpr (.inl h))
        · exact (ih h).imp_right (List.mem_cons_of_mem _)

theorem lookup_insertEntry (k : κ) (v : α) (es : List (κ × α)) (k' : κ) :
    lookup k' (insertEntry k v es) = if k' = k then some v else lookup k' es := by
  induction es with
  | nil => simp [insertEntry, lookup]
  | cons e es ih =>
    simp only [insertEntry]
    split
    · rename_i hk
      by_cases h : k' = k <;> simp [lookup, h, ← hk]
    · rename_i hk
      split
      · by_cases h : k' = k <;> simp [lookup, h]
      · by_cases h : k' = e.1
        · simp [lookup, h, Ne.symm hk]
        · simp [lookup, h, ih]

variable [Key κ]

theorem ordered_insertEntry (k : κ) (v : α) {es : List (κ × α)}
    (h : es.Pairwise fun a b => a.1 < b.1) :
    (insertEntry k v es).Pairwise fun a b => a.1 < b.1 := by
  induction es with
  | nil => simp [insertEntry]
  | cons e es ih =>
    obtain ⟨first, rest⟩ := List.pairwise_cons.mp h
    simp only [insertEntry]
    split
    · rename_i hk
      exact List.pairwise_cons.mpr ⟨fun x hx => hk ▸ first x hx, rest⟩
    · rename_i hk
      split
      · rename_i hlt
        refine List.pairwise_cons.mpr ⟨fun x hx => ?_, h⟩
        rcases List.mem_cons.mp hx with hx | hx
        · exact hx ▸ hlt
        · exact Key.trans hlt (first x hx)
      · rename_i hlt
        refine List.pairwise_cons.mpr ⟨fun x hx => ?_, ih rest⟩
        rcases mem_insertEntry hx with hx | hx
        · subst hx
          exact Classical.byContradiction fun hn => hk (Key.connected hlt hn)
        · exact first x hx

/-- The map in which `k` leads to `v` and every other key where it led before. -/
def insert (t : Table κ α) (k : κ) (v : α) : Table κ α :=
  ⟨insertEntry k v t.entries, ordered_insertEntry k v t.ordered⟩

theorem find?_insert (t : Table κ α) (k : κ) (v : α) (k' : κ) :
    (t.insert k v).find? k' = if k' = k then some v else t.find? k' :=
  lookup_insertEntry k v t.entries k'

/-- Of several entries with one key the last counts. -/
def ofList (es : List (κ × α)) : Table κ α :=
  es.foldl (fun t e => t.insert e.1 e.2) empty

theorem find?_foldl_insert {es : List (κ × α)} (h : (es.map Prod.fst).Nodup) (t : Table κ α)
    (k : κ) (v : α) :
    (es.foldl (fun t e => t.insert e.1 e.2) t).find? k = some v ↔
      (k, v) ∈ es ∨ k ∉ es.map Prod.fst ∧ t.find? k = some v := by
  induction es generalizing t with
  | nil => simp
  | cons e es ih =>
    obtain ⟨hfirst, hrest⟩ := List.nodup_cons.mp h
    rw [List.foldl_cons, ih hrest, find?_insert]
    by_cases hk : k = e.1
    · subst hk
      have hnot : (e.1, v) ∉ es := fun hmem => hfirst (List.mem_map.mpr ⟨_, hmem, rfl⟩)
      simp [hnot, hfirst, Prod.ext_iff, eq_comm]
    · simp [hk, Prod.ext_iff]

/-- Where no key comes twice, the map has the entries of the list. -/
theorem find?_ofList_iff {es : List (κ × α)} (h : (es.map Prod.fst).Nodup) {k : κ} {v : α} :
    (ofList es).find? k = some v ↔ (k, v) ∈ es := by
  simp [ofList, find?_foldl_insert h, find?_empty]

theorem ofList_perm {es fs : List (κ × α)} (hperm : es.Perm fs) (h : (es.map Prod.fst).Nodup) :
    ofList es = ofList fs := by
  have h' : (fs.map Prod.fst).Nodup := (hperm.map Prod.fst).nodup_iff.mp h
  apply ext_find?
  intro k
  apply Option.ext
  intro v
  rw [find?_ofList_iff h, find?_ofList_iff h', hperm.mem_iff]

omit [DecidableEq κ] [DecidableLT κ] in
theorem nodup_keys (t : Table κ α) : t.keys.Nodup := by
  rw [keys, List.nodup_iff_pairwise_ne, List.pairwise_map]
  apply t.ordered.imp
  intro a b hlt heq
  exact Key.irrefl b.1 (heq ▸ hlt)

theorem ofList_entries (t : Table κ α) : ofList t.entries = t := by
  apply ext_find?
  intro k
  apply Option.ext
  intro v
  rw [find?_ofList_iff t.nodup_keys, mem_entries_iff]

end Table
end EntryPoints
