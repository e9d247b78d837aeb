import EntryPoints.Text.Utf8

/-!
The order of texts. Texts are compared by their characters, and a table of strings compares bytes:
both find the same order, since a character that comes later is spelled by bytes that do.
-/
namespace EntryPoints.Text.Utf8

theorem byte_lt_byte {m n : Nat} {s t : List UInt8} (hm : m < 256) (hn : n < 256)
    (h : m < n ∨ m = n ∧ s < t) : UInt8.ofNat m :: s < UInt8.ofNat n :: t := by
  rw [List.cons_lt_cons_iff, UInt8.lt_iff_toNat_lt, toNat_byte hm, toNat_byte hn]
  rcases h with h | ⟨rfl, h⟩
  · exact .inl h
  · exact .inr ⟨rfl, h⟩

/-- A byte that continues a character holds six bits of its value. -/
theorem further_lt_further {m n : Nat} {s t : List UInt8} (hhigh : m / 64 = n / 64)
    (h : m < n ∨ m = n ∧ s < t) :
    UInt8.ofNat (m % 64 + 128) :: s < UInt8.ofNat (n % 64 + 128) :: t := by
  apply byte_lt_byte (by omega) (by omega)
  rcases h with h | ⟨rfl, h⟩
  · exact .inl (by omega)
  · exact .inr ⟨rfl, h⟩

theorem encodeChar_lt {c d : Char} (h : c < d) (s t : List UInt8) :
    String.utf8EncodeChar c ++ s < String.utf8EncodeChar d ++ t := by
  have hlt : c.val.toNat < d.val.toNat := h
  have hvalid : d.val.toNat < 0xd800 ∨ 0xdfff < d.val.toNat ∧ d.val.toNat < 0x110000 := d.valid
  simp only [String.utf8EncodeChar]
  generalize c.val.toNat = m at hlt ⊢
  generalize d.val.toNat = n at hlt hvalid ⊢
  -- Where the bytes before agree, so do the bits that they hold, and later bits have to tell.
  have hlast : m / 64 = n / 64 →
      UInt8.ofNat (m % 64 + 128) :: s < UInt8.ofNat (n % 64 + 128) :: t :=
    fun hsame => further_lt_further hsame (.inl hlt)
  have hmiddle : m / 4096 = n / 4096 →
      UInt8.ofNat (m / 64 % 64 + 128) :: UInt8.ofNat (m % 64 + 128) :: s <
        UInt8.ofNat (n / 64 % 64 + 128) :: UInt8.ofNat (n % 64 + 128) :: t := by
    intro hsame
    apply further_lt_further (by omega)
    rcases Nat.lt_or_eq_of_le (show m / 64 ≤ n / 64 by omega) with hless | hequal
    · exact .inl hless
    · exact .inr ⟨hequal, hlast hequal⟩
  have hfirst : m / 262144 = n / 262144 →
      UInt8.ofNat (m / 4096 % 64 + 128) :: UInt8.ofNat (m / 64 % 64 + 128) ::
        UInt8.ofNat (m % 64 + 128) :: s <
      UInt8.ofNat (n / 4096 % 64 + 128) :: UInt8.ofNat (n / 64 % 64 + 128) ::
        UInt8.ofNat (n % 64 + 128) :: t := by
    intro hsame
    apply further_lt_further (by omega)
    rcases Nat.lt_or_eq_of_le (show m / 4096 ≤ n / 4096 by omega) with hless | hequal
    · exact .inl hless
    · exact .inr ⟨hequal, hmiddle hequal⟩
  repeat' split
  all_goals simp only [List.cons_append, List.nil_append]
  all_goals apply byte_lt_byte (by omega) (by omega)
  -- The first byte tells how many there are, more of them for later characters.
  any_goals (apply Or.inl; omega)
  · rcases Nat.lt_or_eq_of_le (show m / 64 ≤ n / 64 by omega) with hless | hequal
    · exact .inl (by omega)
    · exact .inr ⟨by omega, hlast hequal⟩
  · rcases Nat.lt_or_eq_of_le (show m / 4096 ≤ n / 4096 by omega) with hless | hequal
    · exact .inl (by omega)
    · exact .inr ⟨by omega, hmiddle hequal⟩
  · rcases Nat.lt_or_eq_of_le (show m / 262144 ≤ n / 262144 by omega) with hless | hequal
    · exact .inl (by omega)
    · exact .inr ⟨by omega, hfirst hequal⟩

theorem encode_lt {a b : Text} (h : a < b) : encode a < encode b := by
  induction a generalizing b with
  | nil =>
    cases b with
    | nil => exact absurd h (List.not_lt_nil _)
    | cons d b =>
      have hne : encode (d :: b) ≠ [] := by simp [encode_cons]
      obtain ⟨byte, rest, hbytes⟩ := List.exists_cons_of_ne_nil hne
      rw [hbytes]
      exact List.nil_lt_cons byte rest
  | cons c a ih =>
    cases b with
    | nil => exact absurd h (List.not_lt_nil _)
    | cons d b =>
      simp only [encode, List.flatMap_cons] at ih ⊢
      rcases List.cons_lt_cons_iff.mp h with hhead | ⟨rfl, htail⟩
      · exact encodeChar_lt hhead _ _
      · exact List.append_left_lt (ih htail)

end EntryPoints.Text.Utf8
