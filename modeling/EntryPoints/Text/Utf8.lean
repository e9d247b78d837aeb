import EntryPoints.Text

/-!
UTF-8. Reading never fails: an ill-formed stretch of bytes, as long as it could still have become
a character, is read as one `none`. Strict and lenient readings are both made from that one, and
both give back a text that was written (`strict?_encode`, `lenient_encode`).
-/
namespace EntryPoints.Text.Utf8

def encode (t : Text) : List UInt8 := t.flatMap String.utf8EncodeChar

/-- A character of which some bytes are still due; the next one lies from `low` to `high`. -/
structure Begun where
  value : Nat
  due : Nat
  low : Nat
  high : Nat

/-- What a byte at the start of a character makes: the character, one begun, or neither. -/
inductive Lead where
  | whole (c : Char)
  | begun (b : Begun)
  | stray

def lead (byte : UInt8) : Lead :=
  let n := byte.toNat
  if n < 0x80 then .whole (Char.ofNat n)
  else if n < 0xc2 then .stray
  else if n < 0xe0 then .begun ⟨n - 0xc0, 1, 0x80, 0xbf⟩
  else if n = 0xe0 then .begun ⟨0, 2, 0xa0, 0xbf⟩
  else if n = 0xed then .begun ⟨0xd, 2, 0x80, 0x9f⟩
  else if n < 0xf0 then .begun ⟨n - 0xe0, 2, 0x80, 0xbf⟩
  else if n = 0xf0 then .begun ⟨0, 3, 0x90, 0xbf⟩
  else if n < 0xf4 then .begun ⟨n - 0xf0, 3, 0x80, 0xbf⟩
  else if n = 0xf4 then .begun ⟨4, 3, 0x80, 0x8f⟩
  else .stray

def Begun.accepts (b : Begun) (byte : UInt8) : Bool :=
  b.low ≤ byte.toNat && byte.toNat ≤ b.high

/-- The value with the low six bits of one more byte. -/
def Begun.extended (b : Begun) (byte : UInt8) : Nat := b.value * 64 + byte.toNat % 64

/-- The characters of `bytes`, the first of which may have begun before them. -/
def decodeFrom : Option Begun → List UInt8 → List (Option Char)
  | none, [] => []
  | some _, [] => [none]
  | none, byte :: rest =>
    match lead byte with
    | .whole c => some c :: decodeFrom none rest
    | .begun b => decodeFrom (some b) rest
    | .stray => none :: decodeFrom none rest
  | some b, byte :: rest =>
    if b.accepts byte then
      if b.due = 1 then some (Char.ofNat (b.extended byte)) :: decodeFrom none rest
      else decodeFrom (some ⟨b.extended byte, b.due - 1, 0x80, 0xbf⟩) rest
    else
      none ::
        match lead byte with
        | .whole c => some c :: decodeFrom none rest
        | .begun b => decodeFrom (some b) rest
        | .stray => none :: decodeFrom none rest

/-- The characters of `bytes`, with `none` for each ill-formed stretch. -/
def decode (bytes : List UInt8) : List (Option Char) := decodeFrom none bytes

/-- The text that `bytes` spell, if no stretch of them is ill-formed. -/
def strict? (bytes : List UInt8) : Option Text := (decode bytes).mapM id

/-- The text of `bytes`, with the replacement character for each ill-formed stretch. -/
def lenient (bytes : List UInt8) : Text := (decode bytes).map (·.getD '\uFFFD')

theorem toNat_byte {n : Nat} (h : n < 256) : (UInt8.ofNat n).toNat = n := by
  simp [UInt8.toNat_ofNat', Nat.mod_eq_of_lt h]

theorem decodeFrom_whole {n : Nat} (h : n < 0x80) (rest : List UInt8) :
    decodeFrom none (UInt8.ofNat n :: rest) = some (Char.ofNat n) :: decodeFrom none rest := by
  simp [decodeFrom, lead, toNat_byte (show n < 256 by omega), h]

theorem decodeFrom_begun {byte : UInt8} {b : Begun} (h : lead byte = .begun b) (rest : List UInt8) :
    decodeFrom none (byte :: rest) = decodeFrom (some b) rest := by
  simp only [decodeFrom, h]

/-- The last byte of a character brings the last six bits of its value. -/
theorem decodeFrom_last {value low high n : Nat} (hlow : low ≤ n) (hhigh : n ≤ high) (h : n < 256)
    (rest : List UInt8) :
    decodeFrom (some ⟨value, 1, low, high⟩) (UInt8.ofNat n :: rest) =
      some (Char.ofNat (value * 64 + n % 64)) :: decodeFrom none rest := by
  simp [decodeFrom, Begun.accepts, Begun.extended, toNat_byte h, hlow, hhigh]

theorem decodeFrom_further {value due low high n : Nat} (hlow : low ≤ n) (hhigh : n ≤ high)
    (h : n < 256) (rest : List UInt8) :
    decodeFrom (some ⟨value, due + 2, low, high⟩) (UInt8.ofNat n :: rest) =
      decodeFrom (some ⟨value * 64 + n % 64, due + 1, 0x80, 0xbf⟩) rest := by
  simp [decodeFrom, Begun.accepts, Begun.extended, toNat_byte h, hlow, hhigh]

theorem lead_two {n : Nat} (low : 0xc2 ≤ n) (high : n < 0xe0) :
    lead (UInt8.ofNat n) = .begun ⟨n - 0xc0, 1, 0x80, 0xbf⟩ := by
  simp only [lead, toNat_byte (show n < 256 by omega)]
  rw [if_neg (by omega), if_neg (by omega), if_pos (by omega)]

theorem lead_three {n : Nat} (low : 0xe0 ≤ n) (high : n < 0xf0) :
    lead (UInt8.ofNat n) =
      .begun ⟨n - 0xe0, 2, if n = 0xe0 then 0xa0 else 0x80, if n = 0xed then 0x9f else 0xbf⟩ := by
  simp only [lead, toNat_byte (show n < 256 by omega)]
  rw [if_neg (by omega), if_neg (by omega), if_neg (by omega)]
  by_cases first : n = 0xe0
  · simp [first]
  · by_cases gap : n = 0xed
    · simp [gap]
    · simp [first, gap, high]

theorem lead_four {n : Nat} (low : 0xf0 ≤ n) (high : n < 0xf5) :
    lead (UInt8.ofNat n) =
      .begun ⟨n - 0xf0, 3, if n = 0xf0 then 0x90 else 0x80, if n = 0xf4 then 0x8f else 0xbf⟩ := by
  simp only [lead, toNat_byte (show n < 256 by omega)]
  rw [if_neg (by omega), if_neg (by omega), if_neg (by omega), if_neg (by omega), if_neg (by omega),
    if_neg (by omega)]
  by_cases first : n = 0xf0
  · simp [first]
  · by_cases last : n = 0xf4
    · simp [last]
    · simp [first, last, show n < 0xf4 by omega]

theorem decodeFrom_encodeChar (c : Char) (rest : List UInt8) :
    decodeFrom none (String.utf8EncodeChar c ++ rest) = some c :: decodeFrom none rest := by
  have valid : c.toNat < 0xd800 ∨ 0xdfff < c.toNat ∧ c.toNat < 0x110000 := c.valid
  have hc : Char.ofNat c.toNat = c := Char.ofNat_toNat c
  generalize hv : c.toNat = v at valid hc
  have hval : c.val.toNat = v := hv
  simp only [String.utf8EncodeChar, hval]
  split
  · rw [List.cons_append, List.nil_append, decodeFrom_whole (by omega), hc]
  · split
    · rw [List.cons_append, decodeFrom_begun (lead_two (by omega) (by omega)), List.cons_append,
        decodeFrom_last (by omega) (by omega) (by omega), List.nil_append,
        show (v / 64 % 32 + 192 - 0xc0) * 64 + (v % 64 + 128) % 64 = v by omega, hc]
    · split
      · rw [List.cons_append, decodeFrom_begun (lead_three (by omega) (by omega)),
          List.cons_append, decodeFrom_further (by split <;> omega) (by split <;> omega) (by omega),
          List.cons_append, decodeFrom_last (by omega) (by omega) (by omega), List.nil_append,
          show ((v / 4096 % 16 + 224 - 0xe0) * 64 + (v / 64 % 64 + 128) % 64) * 64 +
            (v % 64 + 128) % 64 = v by omega, hc]
      · rw [List.cons_append, decodeFrom_begun (lead_four (by omega) (by omega)),
          List.cons_append, decodeFrom_further (by split <;> omega) (by split <;> omega) (by omega),
          List.cons_append, decodeFrom_further (by omega) (by omega) (by omega),
          List.cons_append, decodeFrom_last (by omega) (by omega) (by omega), List.nil_append,
          show (((v / 262144 % 8 + 240 - 0xf0) * 64 + (v / 4096 % 64 + 128) % 64) * 64 +
            (v / 64 % 64 + 128) % 64) * 64 + (v % 64 + 128) % 64 = v by omega, hc]

theorem decode_encode (t : Text) : decode (encode t) = t.map some := by
  induction t with
  | nil => rfl
  | cons c t ih =>
    simp only [decode, encode, List.flatMap_cons, List.map_cons, decodeFrom_encodeChar] at ih ⊢
    rw [ih]

theorem encode_append (s t : Text) : encode (s ++ t) = encode s ++ encode t := List.flatMap_append

theorem encode_cons (c : Char) (t : Text) :
    encode (c :: t) = String.utf8EncodeChar c ++ encode t := rfl

theorem encodeChar_low {c : Char} (h : c.toNat < 0x80) :
    String.utf8EncodeChar c = [UInt8.ofNat c.toNat] := by
  have hval : c.val.toNat < 0x80 := h
  rw [String.utf8EncodeChar, if_pos (by omega)]
  rfl

/-- The bytes of a character beyond ASCII are beyond ASCII as well. -/
theorem high_of_mem_encodeChar {c : Char} (h : 0x80 ≤ c.toNat) {byte : UInt8}
    (hbyte : byte ∈ String.utf8EncodeChar c) : 0x80 ≤ byte.toNat := by
  have hval : 0x80 ≤ c.val.toNat := h
  have hvalid : c.val.toNat < 0xd800 ∨ 0xdfff < c.val.toNat ∧ c.val.toNat < 0x110000 := c.valid
  simp only [String.utf8EncodeChar] at hbyte
  generalize c.val.toNat = v at hval hvalid hbyte
  rw [if_neg (by omega)] at hbyte
  have htold : ∀ {n : Nat}, byte = UInt8.ofNat n → 0x80 ≤ n → n < 256 → 0x80 ≤ byte.toNat := by
    rintro n rfl hlow hhigh
    rwa [toNat_byte hhigh]
  split at hbyte
  · simp only [List.mem_cons, List.not_mem_nil, or_false] at hbyte
    rcases hbyte with hbyte | hbyte <;> exact htold hbyte (by omega) (by omega)
  · split at hbyte
    · simp only [List.mem_cons, List.not_mem_nil, or_false] at hbyte
      rcases hbyte with hbyte | hbyte | hbyte <;> exact htold hbyte (by omega) (by omega)
    · simp only [List.mem_cons, List.not_mem_nil, or_false] at hbyte
      rcases hbyte with hbyte | hbyte | hbyte | hbyte <;> exact htold hbyte (by omega) (by omega)

theorem lenient_encode (t : Text) : lenient (encode t) = t := by
  simp [lenient, decode_encode, Function.comp_def]

theorem strict?_encode (t : Text) : strict? (encode t) = some t := by
  rw [strict?, decode_encode]
  induction t with
  | nil => rfl
  | cons c t ih => simp_all

end EntryPoints.Text.Utf8
