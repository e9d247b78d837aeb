/-!
Keys: types whose order puts one of any two different values before the other. Characters and bytes
are keys, and so are lists of keys, which are ordered by the first place where they differ.
-/
namespace EntryPoints

class Key (κ : Type) [LT κ] : Prop where
  irrefl (a : κ) : ¬ a < a
  trans {a b c : κ} : a < b → b < c → a < c
  connected {a b : κ} : ¬ a < b → ¬ b < a → a = b

namespace Key

instance : Key Char where
  irrefl := Char.lt_irrefl
  trans := Char.lt_trans
  connected h h' := Char.le_antisymm (Char.not_lt.mp h') (Char.not_lt.mp h)

instance : Key UInt8 where
  irrefl := UInt8.lt_irrefl
  trans := UInt8.lt_trans
  connected h h' := UInt8.le_antisymm (UInt8.not_lt.mp h') (UInt8.not_lt.mp h)

variable {α : Type} [LT α]

theorem list_irrefl [Key α] (as : List α) : ¬ as < as := by
  induction as with
  | nil => exact List.not_lt_nil _
  | cons a as ih =>
    intro h
    rcases List.cons_lt_cons_iff.mp h with head | tail
    · exact Key.irrefl a head
    · exact ih tail.2

theorem list_trans [Key α] {as bs cs : List α} (h : as < bs) (h' : bs < cs) : as < cs := by
  induction bs generalizing as cs with
  | nil => exact absurd h (List.not_lt_nil _)
  | cons b bs ih =>
    cases cs with
    | nil => exact absurd h' (List.not_lt_nil _)
    | cons c cs =>
      cases as with
      | nil => exact List.nil_lt_cons _ _
      | cons a as =>
        rcases List.cons_lt_cons_iff.mp h with head | ⟨rfl, tail⟩
        · rcases List.cons_lt_cons_iff.mp h' with head' | ⟨rfl, _⟩
          · exact List.cons_lt_cons_iff.mpr (.inl (Key.trans head head'))
          · exact List.cons_lt_cons_iff.mpr (.inl head)
        · rcases List.cons_lt_cons_iff.mp h' with head' | ⟨rfl, tail'⟩
          · exact List.cons_lt_cons_iff.mpr (.inl head')
          · exact List.cons_lt_cons_iff.mpr (.inr ⟨rfl, ih tail tail'⟩)

theorem list_connected [Key α] {as bs : List α} (h : ¬ as < bs) (h' : ¬ bs < as) : as = bs := by
  induction as generalizing bs with
  | nil =>
    cases bs with
    | nil => rfl
    | cons b bs => exact absurd (List.nil_lt_cons _ _) h
  | cons a as ih =>
    cases bs with
    | nil => exact absurd (List.nil_lt_cons _ _) h'
    | cons b bs =>
      have heads : a = b := Key.connected
        (fun hab => h (List.cons_lt_cons_iff.mpr (.inl hab)))
        (fun hba => h' (List.cons_lt_cons_iff.mpr (.inl hba)))
      subst heads
      rw [ih (fun hab => h (List.cons_lt_cons_iff.mpr (.inr ⟨rfl, hab⟩)))
        (fun hba => h' (List.cons_lt_cons_iff.mpr (.inr ⟨rfl, hba⟩)))]

instance [Key α] : Key (List α) := ⟨list_irrefl, list_trans, list_connected⟩

end Key
end EntryPoints
