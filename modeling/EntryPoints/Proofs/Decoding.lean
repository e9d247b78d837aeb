import EntryPoints.Path

/-!
Reading bytes as text, where some of them may spell nothing. A character of one byte is read
wherever its byte stands, also where it cuts another character short (`decodeFrom_low`), and from
no other byte (`low_not_mem_lenient`). If nothing was lost, writing the text again gives the bytes
back (`encode_lenient`).
-/
namespace EntryPoints.Text.Utf8

/-- A byte of ASCII cannot go on with the character. -/
def Begun.IsHigh (b : Begun) : Prop := 0x80 ≤ b.low

theorem isHigh_of_lead {byte : UInt8} {b : Begun} (h : lead byte = .begun b) : b.IsHigh := by
  unfold lead at h
  dsimp only at h
  unfold Begun.IsHigh
  grind

theorem not_accepts_low {b : Begun} (h : b.IsHigh) {byte : UInt8} (hlow : byte.toNat < 0x80) :
    b.accepts byte = false := by
  unfold Begun.IsHigh at h
  have hbelow : ¬ b.low ≤ byte.toNat := by omega
  simp [Begun.accepts, hbelow]

theorem decodeFrom_refused {b : Begun} {byte : UInt8} (h : b.accepts byte = false)
    (rest : List UInt8) :
    decodeFrom (some b) (byte :: rest) = none :: decodeFrom none (byte :: rest) := by
  simp [decodeFrom, h]

/-- A character of one byte stands for itself, also where it cuts another one short. -/
theorem decodeFrom_low {c : Char} (hc : c.toNat < 0x80) {state : Option Begun}
    (h : ∀ b ∈ state, b.IsHigh) (bytes rest : List UInt8) :
    decodeFrom state (bytes ++ UInt8.ofNat c.toNat :: rest) =
      decodeFrom state bytes ++ some c :: decodeFrom none rest := by
  -- What comes before may end within a character, so the state is general.
  induction bytes generalizing state with
  | nil =>
    have hwhole := decodeFrom_whole hc rest
    rw [Char.ofNat_toNat] at hwhole
    cases state with
    | none => exact hwhole
    | some b =>
      have hbyte : (UInt8.ofNat c.toNat).toNat < 0x80 := by rwa [toNat_byte (by omega)]
      rw [List.nil_append, decodeFrom_refused (not_accepts_low (h b rfl) hbyte), hwhole]
      rfl
  | cons byte bytes ih =>
    have hrest := @ih none (by simp)
    have hfresh : decodeFrom none (byte :: (bytes ++ UInt8.ofNat c.toNat :: rest)) =
        decodeFrom none (byte :: bytes) ++ some c :: decodeFrom none rest := by
      simp only [decodeFrom]
      cases hlead : lead byte with
      | whole first => simp [hrest]
      | begun b =>
        apply ih
        simpa using isHigh_of_lead hlead
      | stray => simp [hrest]
    cases state with
    | none => exact hfresh
    | some b =>
      rw [List.cons_append]
      cases haccepts : b.accepts byte with
      | false =>
        rw [decodeFrom_refused haccepts, decodeFrom_refused haccepts, hfresh]
        rfl
      | true =>
        simp only [decodeFrom, haccepts, if_true]
        split
        · simp [hrest]
        · apply ih
          simp [Begun.IsHigh]

theorem lenient_append_low {c : Char} (hc : c.toNat < 0x80) (bytes rest : List UInt8) :
    lenient (bytes ++ UInt8.ofNat c.toNat :: rest) = lenient bytes ++ c :: lenient rest := by
  have hdecode := @decodeFrom_low c hc none (by simp) bytes rest
  simp [lenient, decode, hdecode]

/-- The value is not 0, or the next byte, behind which more are due, makes it so. -/
def Begun.IsLong (b : Begun) : Prop :=
  1 ≤ b.value ∨ (2 ≤ b.due ∧ 0x90 ≤ b.low ∧ b.high ≤ 0xbf)

theorem isLong_of_lead {byte : UInt8} {b : Begun} (h : lead byte = .begun b) : b.IsLong := by
  unfold lead at h
  dsimp only at h
  by_cases hvalue : 1 ≤ b.value
  · exact .inl hvalue
  · refine .inr ⟨?_, ?_, ?_⟩ <;> grind

theorem one_le_extended {b : Begun} (h : b.IsLong) {byte : UInt8}
    (haccepts : b.accepts byte = true) : 1 ≤ b.extended byte := by
  obtain ⟨hlow, hhigh⟩ : b.low ≤ byte.toNat ∧ byte.toNat ≤ b.high := by
    simpa [Begun.accepts] using haccepts
  unfold Begun.extended
  rcases h with hvalue | ⟨_, hfrom, hto⟩ <;> omega

/-- Only numbers of no character give the first one otherwise. -/
theorem eq_of_ofNat_eq {n : Nat} {c : Char} (hc : c ≠ '\x00') (h : Char.ofNat n = c) :
    n = c.toNat := by
  by_cases hvalid : n.isValidChar
  · rw [Char.ofNat, dif_pos hvalid] at h
    exact congrArg Char.toNat h
  · rw [Char.ofNat, dif_neg hvalid] at h
    exact absurd h.symm hc

theorem eq_of_lead {byte : UInt8} {c : Char} (h : lead byte = .whole c) :
    c = Char.ofNat byte.toNat := by
  unfold lead at h
  dsimp only at h
  grind

theorem ofNat_extended_ne {c : Char} (hc : c ≠ '\x00') (hlow : c.toNat < 0x40) {b : Begun}
    (h : b.IsLong) (hdue : b.due = 1) (byte : UInt8) : Char.ofNat (b.extended byte) ≠ c := by
  intro hsame
  have hvalue := eq_of_ofNat_eq hc hsame
  unfold Begun.extended at hvalue
  rcases h with hlong | ⟨hmore, _, _⟩ <;> omega

theorem low_not_mem_decodeFrom {c : Char} (hc : c ≠ '\x00') (hlow : c.toNat < 0x40)
    {state : Option Begun} (h : ∀ b ∈ state, b.IsLong) {bytes : List UInt8}
    (hbytes : UInt8.ofNat c.toNat ∉ bytes) : some c ∉ decodeFrom state bytes := by
  -- A character that is made of several bytes is too large to be `c`, and `IsLong` says so ahead.
  induction bytes generalizing state with
  | nil => cases state <;> simp [decodeFrom]
  | cons byte bytes ih =>
    obtain ⟨hbyte, hbytes⟩ : UInt8.ofNat c.toNat ≠ byte ∧ UInt8.ofNat c.toNat ∉ bytes := by
      simpa using hbytes
    have hrest := @ih none (by simp) hbytes
    have hfresh : some c ∉ decodeFrom none (byte :: bytes) := by
      simp only [decodeFrom]
      cases hlead : lead byte with
      | whole first =>
        have hfirst : first ≠ c := by
          rintro rfl
          have hvalue := eq_of_ofNat_eq hc (eq_of_lead hlead).symm
          exact hbyte (by rw [← hvalue, UInt8.ofNat_toNat])
        simp [hfirst.symm, hrest]
      | begun b =>
        refine ih ?_ hbytes
        simpa using isLong_of_lead hlead
      | stray => simp [hrest]
    cases state with
    | none => exact hfresh
    | some b =>
      have hlong := h b rfl
      cases haccepts : b.accepts byte with
      | false => simpa [decodeFrom_refused haccepts] using hfresh
      | true =>
        simp only [decodeFrom, haccepts, if_true]
        split
        · rename_i hdue
          simp [(ofNat_extended_ne hc hlow hlong hdue byte).symm, hrest]
        · refine ih ?_ hbytes
          have hvalue := one_le_extended hlong haccepts
          simpa [Begun.IsLong] using hvalue

/-- Nothing but its own byte is read as a character of one byte. -/
theorem low_not_mem_lenient {c : Char} (hc : c ≠ '\x00') (hlow : c.toNat < 0x40)
    {bytes : List UInt8} (h : UInt8.ofNat c.toNat ∉ bytes) : c ∉ lenient bytes := by
  intro hmem
  obtain ⟨read, hread, hsame⟩ := List.mem_map.mp hmem
  cases read with
  | none =>
    obtain rfl : '\uFFFD' = c := hsame
    exact absurd hlow (by decide)
  | some first =>
    obtain rfl : first = c := hsame
    exact low_not_mem_decodeFrom hc hlow (by simp) h hread

theorem toNat_ofNat {n : Nat} (h : n < 0xd800 ∨ 0xdfff < n ∧ n < 0x110000) :
    (Char.ofNat n).val.toNat = n := by
  have hvalid : n.isValidChar := h
  rw [Char.ofNat, dif_pos hvalid]
  rfl

theorem encodeChar_two {n m : Nat} (hn : 0xc2 ≤ n ∧ n < 0xe0) (hm : 0x80 ≤ m ∧ m ≤ 0xbf) :
    String.utf8EncodeChar (Char.ofNat ((n - 0xc0) * 64 + m % 64)) =
      [UInt8.ofNat n, UInt8.ofNat m] := by
  rw [String.utf8EncodeChar, toNat_ofNat (by omega), if_neg (by omega), if_pos (by omega)]
  generalize hv : (n - 0xc0) * 64 + m % 64 = v
  rw [show v / 64 % 32 + 192 = n by omega, show v % 64 + 128 = m by omega]

theorem encodeChar_three {n m k : Nat} (hn : 0xe0 ≤ n ∧ n < 0xf0)
    (hm : (if n = 0xe0 then 0xa0 else 0x80) ≤ m ∧ m ≤ if n = 0xed then 0x9f else 0xbf)
    (hk : 0x80 ≤ k ∧ k ≤ 0xbf) :
    String.utf8EncodeChar (Char.ofNat (((n - 0xe0) * 64 + m % 64) * 64 + k % 64)) =
      [UInt8.ofNat n, UInt8.ofNat m, UInt8.ofNat k] := by
  have hshort : 0x80 ≤ m ∧ m ≤ 0xbf := by
    constructor <;> split at hm <;> split at hm <;> omega
  rw [String.utf8EncodeChar, toNat_ofNat (by split at hm <;> split at hm <;> omega),
    if_neg (by split at hm <;> omega), if_neg (by split at hm <;> omega), if_pos (by omega)]
  generalize hv : ((n - 0xe0) * 64 + m % 64) * 64 + k % 64 = v
  rw [show v / 4096 % 16 + 224 = n by omega, show v / 64 % 64 + 128 = m by omega,
    show v % 64 + 128 = k by omega]

theorem encodeChar_four {n m k l : Nat} (hn : 0xf0 ≤ n ∧ n < 0xf5)
    (hm : (if n = 0xf0 then 0x90 else 0x80) ≤ m ∧ m ≤ if n = 0xf4 then 0x8f else 0xbf)
    (hk : 0x80 ≤ k ∧ k ≤ 0xbf) (hl : 0x80 ≤ l ∧ l ≤ 0xbf) :
    String.utf8EncodeChar
        (Char.ofNat ((((n - 0xf0) * 64 + m % 64) * 64 + k % 64) * 64 + l % 64)) =
      [UInt8.ofNat n, UInt8.ofNat m, UInt8.ofNat k, UInt8.ofNat l] := by
  have hshort : 0x80 ≤ m ∧ m ≤ 0xbf := by
    constructor <;> split at hm <;> split at hm <;> omega
  rw [String.utf8EncodeChar, toNat_ofNat (by split at hm <;> split at hm <;> omega),
    if_neg (by split at hm <;> omega), if_neg (by split at hm <;> omega),
    if_neg (by split at hm <;> omega)]
  generalize hv : (((n - 0xf0) * 64 + m % 64) * 64 + k % 64) * 64 + l % 64 = v
  rw [show v / 262144 % 8 + 240 = n by omega, show v / 4096 % 64 + 128 = m by omega,
    show v / 64 % 64 + 128 = k by omega, show v % 64 + 128 = l by omega]

theorem lost_or_accepts (b : Begun) (bytes : List UInt8) :
    (∃ rest, decodeFrom (some b) bytes = none :: rest) ∨
      ∃ n rest, bytes = UInt8.ofNat n :: rest ∧ n < 256 ∧ b.low ≤ n ∧ n ≤ b.high := by
  cases bytes with
  | nil => exact .inl ⟨[], rfl⟩
  | cons byte rest =>
    cases haccepts : b.accepts byte with
    | false => exact .inl ⟨_, decodeFrom_refused haccepts rest⟩
    | true =>
      refine .inr ⟨byte.toNat, rest, by rw [UInt8.ofNat_toNat], byte.toNat_lt, ?_⟩
      simpa [Begun.accepts] using haccepts

/-- Reading fails at once, or there are the bytes of a character. -/
def LostOrRead (bytes : List UInt8) : Prop :=
  (∃ rest, decode bytes = none :: rest) ∨ ∃ c rest, bytes = String.utf8EncodeChar c ++ rest

section FirstByte

variable {n : Nat} (bytes : List UInt8)

theorem lostOrRead_one (h : n < 0x80) : LostOrRead (UInt8.ofNat n :: bytes) := by
  refine .inr ⟨Char.ofNat n, bytes, ?_⟩
  have hc : (Char.ofNat n).toNat = n := toNat_ofNat (by omega)
  rw [encodeChar_low (by omega), hc]
  rfl

theorem lostOrRead_stray (hbyte : n < 256) (h : 0x80 ≤ n ∧ n < 0xc2 ∨ 0xf5 ≤ n) :
    LostOrRead (UInt8.ofNat n :: bytes) := by
  have hlead : lead (UInt8.ofNat n) = .stray := by
    unfold lead
    rw [toNat_byte hbyte]
    grind
  exact .inl ⟨decodeFrom none bytes, by simp [decode, decodeFrom, hlead]⟩

theorem lostOrRead_two (low : 0xc2 ≤ n) (high : n < 0xe0) :
    LostOrRead (UInt8.ofNat n :: bytes) := by
  have hbegun := decodeFrom_begun (lead_two low high) bytes
  rcases lost_or_accepts ⟨n - 0xc0, 1, 0x80, 0xbf⟩ bytes with ⟨rest, hlost⟩ | hnext
  · exact .inl ⟨rest, hbegun.trans hlost⟩
  · obtain ⟨m, rest, rfl, _, hm⟩ := hnext
    exact .inr ⟨_, rest, by rw [encodeChar_two ⟨low, high⟩ hm]; rfl⟩

theorem lostOrRead_three (low : 0xe0 ≤ n) (high : n < 0xf0) :
    LostOrRead (UInt8.ofNat n :: bytes) := by
  have hbegun := decodeFrom_begun (lead_three low high) bytes
  rcases lost_or_accepts ⟨n - 0xe0, 2, if n = 0xe0 then 0xa0 else 0x80,
    if n = 0xed then 0x9f else 0xbf⟩ bytes with ⟨rest, hlost⟩ | hnext
  · exact .inl ⟨rest, hbegun.trans hlost⟩
  · obtain ⟨m, rest, rfl, hbyte, hm⟩ := hnext
    have hsecond := hbegun.trans (decodeFrom_further hm.1 hm.2 hbyte rest)
    rcases lost_or_accepts ⟨_, 1, 0x80, 0xbf⟩ rest with ⟨rest, hlost⟩ | hnext
    · exact .inl ⟨rest, hsecond.trans hlost⟩
    · obtain ⟨k, rest, rfl, _, hk⟩ := hnext
      exact .inr ⟨_, rest, by rw [encodeChar_three ⟨low, high⟩ hm hk]; rfl⟩

theorem lostOrRead_four (low : 0xf0 ≤ n) (high : n < 0xf5) :
    LostOrRead (UInt8.ofNat n :: bytes) := by
  have hbegun := decodeFrom_begun (lead_four low high) bytes
  rcases lost_or_accepts ⟨n - 0xf0, 3, if n = 0xf0 then 0x90 else 0x80,
    if n = 0xf4 then 0x8f else 0xbf⟩ bytes with ⟨rest, hlost⟩ | hnext
  · exact .inl ⟨rest, hbegun.trans hlost⟩
  · obtain ⟨m, rest, rfl, hbyte, hm⟩ := hnext
    have hsecond := hbegun.trans (decodeFrom_further hm.1 hm.2 hbyte rest)
    rcases lost_or_accepts ⟨_, 2, 0x80, 0xbf⟩ rest with ⟨rest, hlost⟩ | hnext
    · exact .inl ⟨rest, hsecond.trans hlost⟩
    · obtain ⟨k, rest, rfl, hbyte, hk⟩ := hnext
      have hthird := hsecond.trans (decodeFrom_further hk.1 hk.2 hbyte rest)
      rcases lost_or_accepts ⟨_, 1, 0x80, 0xbf⟩ rest with ⟨rest, hlost⟩ | hnext
      · exact .inl ⟨rest, hthird.trans hlost⟩
      · obtain ⟨l, rest, rfl, _, hl⟩ := hnext
        exact .inr ⟨_, rest, by rw [encodeChar_four ⟨low, high⟩ hm hk hl]; rfl⟩

end FirstByte

theorem lostOrRead (byte : UInt8) (bytes : List UInt8) : LostOrRead (byte :: bytes) := by
  obtain ⟨n, hn, rfl⟩ : ∃ n, n < 256 ∧ byte = UInt8.ofNat n :=
    ⟨byte.toNat, byte.toNat_lt, by rw [UInt8.ofNat_toNat]⟩
  by_cases hone : n < 0x80
  · exact lostOrRead_one bytes hone
  by_cases hstray : n < 0xc2 ∨ 0xf5 ≤ n
  · exact lostOrRead_stray bytes hn (by omega)
  by_cases htwo : n < 0xe0
  · exact lostOrRead_two bytes (by omega) htwo
  by_cases hthree : n < 0xf0
  · exact lostOrRead_three bytes (by omega) hthree
  · exact lostOrRead_four bytes (by omega) (by omega)

theorem encode_lenient {bytes : List UInt8} (h : '\uFFFD' ∉ lenient bytes) :
    encode (lenient bytes) = bytes := by
  generalize hlength : bytes.length = n
  induction n using Nat.strongRecOn generalizing bytes with
  | _ n ih =>
    cases bytes with
    | nil => rfl
    | cons byte bytes =>
      rcases lostOrRead byte bytes with ⟨rest, hlost⟩ | ⟨c, rest, hbegins⟩
      · simp [lenient, hlost] at h
      · have hlenient : lenient (byte :: bytes) = c :: lenient rest := by
          rw [hbegins, lenient, decode, decodeFrom_encodeChar]
          rfl
        have hshorter : rest.length < n := by
          have hpos := c.utf8Size_pos
          rw [← hlength, hbegins, List.length_append, String.length_utf8EncodeChar]
          omega
        rw [hlenient] at h ⊢
        rw [encode_cons, ih rest.length hshorter (List.not_mem_of_not_mem_cons h) rfl, hbegins]

end EntryPoints.Text.Utf8
