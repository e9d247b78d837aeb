import EntryPoints.Json.Reader

/-!
What is written is read again. The reader takes the compact form of a value for that value, whatever
characters its strings hold (`ofBytes?_compact`). It looks at every character once or twice, so the
depth that it allows a document of that length is never reached.
-/
namespace EntryPoints.Json

def isNatural (spelling : Text) : Bool :=
  spelling ≠ [] && spelling.all Char.isDigit && (spelling.head? ≠ some '0' || spelling = ['0'])

mutual

/-- Every string of the value is a text, and every number a natural one. -/
def IsSpelled : Json → Prop
  | .null => True
  | .bool _ => True
  | .number spelling => isNatural spelling = true
  | .string content => content.isSome = true
  | .array items => AllSpelled items
  | .object members => AllMembersSpelled members

def AllSpelled : List Json → Prop
  | [] => True
  | v :: rest => v.IsSpelled ∧ AllSpelled rest

def AllMembersSpelled : List (Option Text × Json) → Prop
  | [] => True
  | (name, v) :: rest => name.isSome = true ∧ v.IsSpelled ∧ AllMembersSpelled rest

end

theorem skipSpace_cons {c : Char} (h : isSpace (some c) = false) (rest : Input) :
    skipSpace (some c :: rest) = some c :: rest :=
  List.dropWhile_cons_of_neg (by simp [h])

section Strings

theorem pieces?_plain {c : Char} (hquote : c ≠ '"') (hslash : c ≠ '\\') (hplain : ¬ c.toNat < 0x20)
    (rest : Input) :
    pieces? (some c :: rest) = (pieces? rest).map fun r => (.char c :: r.1, r.2) := by
  rw [pieces?]
  · rw [if_neg hplain]
  all_goals simp [hquote, hslash]

theorem content?_codeUnit {n : Nat} (h : n < 0xd800) (ps : List Piece) :
    content? (.codeUnit n :: ps) = (content? ps).map (Char.ofNat n :: ·) := by
  cases ps with
  | nil => simp [content?, h]
  | cons p ps => cases p <;> simp [content?, h]

theorem hexDigit?_digitChar : ∀ n < 16, hexDigit? (some (Nat.digitChar n)) = some n := by
  decide

theorem pieces?_codeUnit {n : Nat} (h : n < 0x20) (rest : Input) :
    pieces? (some '\\' :: some 'u' :: some '0' :: some '0' :: some (Nat.digitChar (n / 16)) ::
      some (Nat.digitChar (n % 16)) :: rest) =
        (pieces? rest).map fun r => (.codeUnit n :: r.1, r.2) := by
  have hunit : codeUnit? (some '0') (some '0') (some (Nat.digitChar (n / 16)))
      (some (Nat.digitChar (n % 16))) = some n := by
    have hzero : hexDigit? (some '0') = some 0 := by decide
    simp only [codeUnit?, hzero, hexDigit?_digitChar (n / 16) (by omega),
      hexDigit?_digitChar (n % 16) (by omega), Option.bind_eq_bind, Option.bind_some,
      Option.some.injEq]
    omega
  simp only [pieces?, hunit]

theorem string?_of_piece {front : Input} {p : Piece} {c : Char} {rest : Input}
    (hpiece : pieces? (front ++ rest) = (pieces? rest).map fun r => (p :: r.1, r.2))
    (hcontent : ∀ ps, content? (p :: ps) = (content? ps).map (c :: ·)) :
    string? (front ++ rest) = (string? rest).map fun r => (r.1.map (c :: ·), r.2) := by
  rw [string?, string?, hpiece]
  cases pieces? rest with
  | none => rfl
  | some r => simp [hcontent]

theorem string?_escape {mark c : Char} (hmark : mark ≠ 'u') (h : escaped? mark = some c)
    (rest : Input) :
    string? ([some '\\', some mark] ++ rest) =
      (string? rest).map fun r => (r.1.map (c :: ·), r.2) := by
  apply string?_of_piece (p := .char c)
  · rw [List.cons_append, List.cons_append, List.nil_append, pieces?, h]
    simp [hmark]
  · intro ps
    rfl

theorem string?_writtenChar (c : Char) (rest : Input) :
    string? ((writtenChar c).map some ++ rest) =
      (string? rest).map fun r => (r.1.map (c :: ·), r.2) := by
  unfold writtenChar
  split
  · subst c; exact string?_escape (by decide) rfl rest
  split
  · subst c; exact string?_escape (by decide) rfl rest
  split
  · subst c; exact string?_escape (by decide) rfl rest
  split
  · subst c; exact string?_escape (by decide) rfl rest
  split
  · subst c; exact string?_escape (by decide) rfl rest
  split
  · subst c; exact string?_escape (by decide) rfl rest
  split
  · subst c; exact string?_escape (by decide) rfl rest
  split
  · rename_i hcontrol
    refine string?_of_piece (pieces?_codeUnit hcontrol rest) fun ps => ?_
    rw [content?_codeUnit (by omega), Char.ofNat_toNat]
  · rename_i hquote hslash _ _ _ _ _ hplain
    exact string?_of_piece (pieces?_plain hquote hslash hplain rest) fun ps => rfl

theorem string?_written (t : Text) (rest : Input) :
    string? ((t.flatMap writtenChar).map some ++ some '"' :: rest) = some (some t, rest) := by
  induction t with
  | nil => rfl
  | cons c t ih =>
    rw [List.flatMap_cons, List.map_append, List.append_assoc, string?_writtenChar, ih]
    rfl

end Strings

/-- What stands behind a value: nothing, or what ends the value inside an array or an object. -/
inductive EndsValue : Input → Prop where
  | nothing : EndsValue []
  | comma (rest : Input) : EndsValue (some ',' :: rest)
  | bracket (rest : Input) : EndsValue (some ']' :: rest)
  | brace (rest : Input) : EndsValue (some '\x7d' :: rest)

section Numbers

variable {ds : Text} {rest : Input}

theorem digits?_of_all (hne : ds ≠ []) (hall : ∀ c ∈ ds, c.isDigit = true)
    (hends : EndsValue rest) : digits? (ds.map some ++ rest) = some (ds, rest) := by
  have hfront : (ds.map some ++ rest).takeWhile (fun c => c.any Char.isDigit) = ds.map some := by
    rw [List.takeWhile_append_of_pos (by simpa using hall)]
    cases hends <;> simp
  simp only [digits?, hfront]
  simp [hne, List.filterMap_map]

theorem fraction?_of_ends (hends : EndsValue rest) : fraction? rest = some ([], rest) := by
  cases hends <;> rfl

theorem exponent?_of_ends (hends : EndsValue rest) : exponent? rest = some ([], rest) := by
  cases hends <;> rfl

theorem number?_natural (h : isNatural ds = true) (hends : EndsValue rest) :
    number? (ds.map some ++ rest) = some (ds, rest) := by
  simp only [isNatural, Bool.and_eq_true, Bool.or_eq_true, decide_eq_true_eq, List.all_eq_true] at h
  obtain ⟨⟨hne, hall⟩, hzero⟩ := h
  have hsign : sign (ds.map some ++ rest) = ([], ds.map some ++ rest) := by
    cases ds with
    | nil => exact absurd rfl hne
    | cons c ds =>
      have hminus : c ≠ '-' := by
        rintro rfl
        simp at hall
      simp [sign, hminus]
  have hwhole : whole? (ds.map some ++ rest) = some (ds, rest) := by
    by_cases hfirst : ds.head? = some '0'
    · obtain rfl : ds = ['0'] := hzero.resolve_left (not_not_intro hfirst)
      rfl
    · have hdigits : whole? (ds.map some ++ rest) = digits? (ds.map some ++ rest) := by
        cases ds with
        | nil => exact absurd rfl hne
        | cons c ds =>
          have hc : c ≠ '0' := by simpa using hfirst
          simp [whole?, hc]
      rw [hdigits, digits?_of_all hne hall hends]
  simp [number?, hsign, hwhole, fraction?_of_ends hends, exponent?_of_ends hends]

end Numbers

theorem valueFrom?_string (fuel : Nat) (t : Text) (rest : Input) :
    valueFrom? (fuel + 1) ((writtenString (some t)).map some ++ rest) =
      some (.string (some t), rest) := by
  have hspace : isSpace (some '"') = false := by decide
  simp only [writtenString, Option.getD_some, List.map_append, List.map_cons, List.map_nil,
    List.cons_append, List.append_assoc, List.nil_append, valueFrom?, skipSpace_cons hspace,
    string?_written, Option.map_some]

theorem isSpace_of_isDigit {c : Char} (h : c.isDigit = true) : isSpace (some c) = false := by
  simp only [isSpace, Bool.or_eq_false_iff, decide_eq_false_iff_not, Option.some.injEq]
  refine ⟨⟨⟨?_, ?_⟩, ?_⟩, ?_⟩ <;> (rintro rfl; cases h)

theorem valueFrom?_number {fuel : Nat} {spelling : Text} {rest : Input}
    (h : isNatural spelling = true) (hends : EndsValue rest) :
    valueFrom? (fuel + 1) (spelling.map some ++ rest) = some (.number spelling, rest) := by
  have hnumber := number?_natural h hends
  simp only [isNatural, Bool.and_eq_true, decide_eq_true_eq, List.all_eq_true] at h
  cases spelling with
  | nil => exact absurd rfl h.1.1
  | cons c ds =>
    have hdigit : c.isDigit = true := h.1.2 c List.mem_cons_self
    have hspace := isSpace_of_isDigit hdigit
    rw [List.map_cons, List.cons_append] at hnumber ⊢
    rw [valueFrom?, skipSpace_cons hspace]
    split
    case h_7 =>
      rw [hnumber]
      rfl
    all_goals
      rename_i heq
      cases heq
      cases hdigit

theorem compact_eq_cons {v : Json} (h : v.IsSpelled) :
    ∃ c t, v.compact = c :: t ∧ isSpace (some c) = false ∧ c ≠ ']' := by
  cases v with
  | null => exact ⟨'n', ['u', 'l', 'l'], rfl, by decide, by decide⟩
  | bool b =>
    cases b with
    | false => exact ⟨'f', ['a', 'l', 's', 'e'], rfl, by decide, by decide⟩
    | true => exact ⟨'t', ['r', 'u', 'e'], rfl, by decide, by decide⟩
  | number spelling =>
    simp only [IsSpelled, isNatural, Bool.and_eq_true, decide_eq_true_eq, List.all_eq_true] at h
    obtain ⟨⟨hne, hall⟩, _⟩ := h
    obtain ⟨c, ds, rfl⟩ := List.exists_cons_of_ne_nil hne
    have hdigit : c.isDigit = true := hall c List.mem_cons_self
    refine ⟨c, ds, rfl, ?_, ?_⟩
    · exact isSpace_of_isDigit hdigit
    · rintro rfl
      cases hdigit
  | string content => exact ⟨'"', _, rfl, by decide, by decide⟩
  | array items => exact ⟨'[', _, rfl, by decide, by decide⟩
  | object members => exact ⟨'\x7b', _, rfl, by decide, by decide⟩

theorem compactItems_cons (v : Json) {rest : List Json} (h : rest ≠ []) :
    compactItems (v :: rest) = v.compact ++ ',' :: compactItems rest := by
  cases rest with
  | nil => exact absurd rfl h
  | cons w ws => rfl

theorem compactMembers_cons (name : Option Text) (v : Json) {rest : List (Option Text × Json)}
    (h : rest ≠ []) : compactMembers ((name, v) :: rest) =
      writtenString name ++ ':' :: v.compact ++ ',' :: compactMembers rest := by
  cases rest with
  | nil => exact absurd rfl h
  | cons m ms => rfl

theorem valueFrom?_array {fuel : Nat} {items : List Json} {rest : Input} (hne : items ≠ [])
    (hspelled : AllSpelled items)
    (hitems : itemsFrom? fuel ((compactItems items).map some ++ some ']' :: rest) =
      some (items, rest)) :
    valueFrom? (fuel + 1) ((array items).compact.map some ++ rest) = some (array items, rest) := by
  have hspace : isSpace (some '[') = false := by decide
  obtain ⟨v, vs, rfl⟩ := List.exists_cons_of_ne_nil hne
  obtain ⟨c, t, hv, hc, hbracket⟩ := compact_eq_cons hspelled.1
  obtain ⟨t', ht'⟩ : ∃ t', compactItems (v :: vs) = c :: t' := by
    cases vs with
    | nil => exact ⟨t, hv⟩
    | cons w ws =>
      refine ⟨t ++ ',' :: compactItems (w :: ws), ?_⟩
      rw [compactItems_cons v (List.cons_ne_nil w ws), hv, List.cons_append]
  rw [compact, List.map_append, List.map_cons, List.cons_append, List.cons_append, valueFrom?,
    skipSpace_cons hspace]
  simp only [List.map_cons, List.map_nil, List.append_assoc, List.cons_append, List.nil_append]
  rw [hitems]
  rw [ht', List.map_cons, List.cons_append, skipSpace_cons hc]
  split
  · rename_i heq
    cases heq
    exact absurd rfl hbracket
  · rfl

theorem valueFrom?_object {fuel : Nat} {members : List (Option Text × Json)} {rest : Input}
    (hne : members ≠ [])
    (hmembers : membersFrom? fuel ((compactMembers members).map some ++ some '\x7d' :: rest) =
      some (members, rest)) :
    valueFrom? (fuel + 1) ((object members).compact.map some ++ rest) =
      some (object members, rest) := by
  have hspace : isSpace (some '\x7b') = false := by decide
  have hquote : isSpace (some '"') = false := by decide
  obtain ⟨⟨name, v⟩, ms, rfl⟩ := List.exists_cons_of_ne_nil hne
  obtain ⟨t, ht⟩ : ∃ t, compactMembers ((name, v) :: ms) = '"' :: t := by
    cases ms with
    | nil => exact ⟨_, rfl⟩
    | cons m ms => exact ⟨_, rfl⟩
  rw [compact, List.map_append, List.map_cons, List.cons_append, List.cons_append, valueFrom?,
    skipSpace_cons hspace]
  simp only [List.map_cons, List.map_nil, List.append_assoc, List.cons_append, List.nil_append]
  rw [hmembers, ht, List.map_cons, List.cons_append, skipSpace_cons hquote]
  rfl

theorem itemsFrom?_last {fuel : Nat} {v : Json} {rest : Input}
    (hv : valueFrom? fuel (v.compact.map some ++ some ']' :: rest) = some (v, some ']' :: rest)) :
    itemsFrom? (fuel + 1) ((compactItems [v]).map some ++ some ']' :: rest) = some ([v], rest) := by
  have hspace : isSpace (some ']') = false := by decide
  rw [compactItems, itemsFrom?, hv]
  simp only [skipSpace_cons hspace]

theorem itemsFrom?_more {fuel : Nat} {v : Json} {vs : List Json} {rest : Input} (hne : vs ≠ [])
    (hv : valueFrom? fuel
      (v.compact.map some ++ some ',' :: ((compactItems vs).map some ++ some ']' :: rest)) =
        some (v, some ',' :: ((compactItems vs).map some ++ some ']' :: rest)))
    (hvs : itemsFrom? fuel ((compactItems vs).map some ++ some ']' :: rest) = some (vs, rest)) :
    itemsFrom? (fuel + 1) ((compactItems (v :: vs)).map some ++ some ']' :: rest) =
      some (v :: vs, rest) := by
  have hspace : isSpace (some ',') = false := by decide
  rw [compactItems_cons v hne, List.map_append, List.map_cons, List.append_assoc, List.cons_append,
    itemsFrom?, hv]
  simp only [skipSpace_cons hspace, hvs, Option.map_some]

theorem membersFrom?_last {fuel : Nat} {name : Text} {v : Json} {rest : Input}
    (hv : valueFrom? fuel (v.compact.map some ++ some '\x7d' :: rest) =
      some (v, some '\x7d' :: rest)) :
    membersFrom? (fuel + 1) ((compactMembers [(some name, v)]).map some ++ some '\x7d' :: rest) =
      some ([(some name, v)], rest) := by
  have hquote : isSpace (some '"') = false := by decide
  have hcolon : isSpace (some ':') = false := by decide
  have hbrace : isSpace (some '\x7d') = false := by decide
  simp only [compactMembers, writtenString, Option.getD_some, List.map_append, List.map_cons,
    List.cons_append, List.append_assoc, List.nil_append, membersFrom?,
    skipSpace_cons hquote, string?_written, skipSpace_cons hcolon, hv, skipSpace_cons hbrace]

theorem membersFrom?_more {fuel : Nat} {name : Text} {v : Json} {ms : List (Option Text × Json)}
    {rest : Input} (hne : ms ≠ [])
    (hv : valueFrom? fuel
      (v.compact.map some ++ some ',' :: ((compactMembers ms).map some ++ some '\x7d' :: rest)) =
        some (v, some ',' :: ((compactMembers ms).map some ++ some '\x7d' :: rest)))
    (hms : membersFrom? fuel ((compactMembers ms).map some ++ some '\x7d' :: rest) =
      some (ms, rest)) :
    membersFrom? (fuel + 1)
      ((compactMembers ((some name, v) :: ms)).map some ++ some '\x7d' :: rest) =
        some ((some name, v) :: ms, rest) := by
  have hquote : isSpace (some '"') = false := by decide
  have hcolon : isSpace (some ':') = false := by decide
  have hcomma : isSpace (some ',') = false := by decide
  simp only [compactMembers_cons (some name) v hne, writtenString, Option.getD_some,
    List.map_append, List.map_cons, List.cons_append, List.append_assoc,
    List.nil_append, membersFrom?, skipSpace_cons hquote, string?_written, skipSpace_cons hcolon,
    hv, skipSpace_cons hcomma, hms, Option.map_some]

theorem length_compact_pos {v : Json} (h : v.IsSpelled) : 0 < v.compact.length := by
  obtain ⟨c, t, hv, _⟩ := compact_eq_cons h
  rw [hv, List.length_cons]
  omega

-- By recursion on the value. Fuel for twice as many steps as there are characters is enough, for a
-- list of items one step more: each level spends one step, and has a bracket or a separator for it.
mutual

theorem valueFrom?_compact : ∀ (v : Json) (fuel : Nat) (rest : Input), v.IsSpelled →
    2 * v.compact.length ≤ fuel → EndsValue rest →
      valueFrom? fuel (v.compact.map some ++ rest) = some (v, rest)
  | v, 0, rest, hspelled, hfuel, _ => by
    have hpos := length_compact_pos hspelled
    omega
  | .null, fuel + 1, rest, _, _, _ => rfl
  | .bool true, fuel + 1, rest, _, _, _ => rfl
  | .bool false, fuel + 1, rest, _, _, _ => rfl
  | .number spelling, fuel + 1, rest, hspelled, _, hends => valueFrom?_number hspelled hends
  | .string (some t), fuel + 1, rest, _, _, _ => valueFrom?_string fuel t rest
  | .array [], fuel + 1, rest, _, _, _ => rfl
  | .array (v :: vs), fuel + 1, rest, hspelled, hfuel, _ => by
    have hlength : 2 * (compactItems (v :: vs)).length + 1 ≤ fuel := by
      simp only [compact, List.length_append, List.length_cons, List.length_nil] at hfuel
      omega
    exact valueFrom?_array (List.cons_ne_nil v vs) hspelled
      (itemsFrom?_compact (v :: vs) fuel rest (List.cons_ne_nil v vs) hspelled hlength)
  | .object [], fuel + 1, rest, _, _, _ => rfl
  | .object (m :: ms), fuel + 1, rest, hspelled, hfuel, _ => by
    have hlength : 2 * (compactMembers (m :: ms)).length + 1 ≤ fuel := by
      simp only [compact, List.length_append, List.length_cons, List.length_nil] at hfuel
      omega
    exact valueFrom?_object (List.cons_ne_nil m ms)
      (membersFrom?_compact (m :: ms) fuel rest (List.cons_ne_nil m ms) hspelled hlength)

theorem itemsFrom?_compact : ∀ (items : List Json) (fuel : Nat) (rest : Input), items ≠ [] →
    AllSpelled items → 2 * (compactItems items).length + 1 ≤ fuel →
      itemsFrom? fuel ((compactItems items).map some ++ some ']' :: rest) = some (items, rest)
  | [], fuel, rest, hne, _, _ => absurd rfl hne
  | [v], fuel + 1, rest, _, hspelled, hfuel => by
    have hlength : 2 * v.compact.length ≤ fuel := by
      simp only [compactItems] at hfuel
      omega
    exact itemsFrom?_last (valueFrom?_compact v fuel _ hspelled.1 hlength (.bracket rest))
  | v :: w :: ws, fuel + 1, rest, _, hspelled, hfuel => by
    have hne := List.cons_ne_nil w ws
    rw [compactItems_cons v hne, List.length_append, List.length_cons] at hfuel
    have hpos := length_compact_pos hspelled.1
    exact itemsFrom?_more hne
      (valueFrom?_compact v fuel _ hspelled.1 (by omega) (.comma _))
      (itemsFrom?_compact (w :: ws) fuel rest hne hspelled.2 (by omega))

theorem membersFrom?_compact : ∀ (members : List (Option Text × Json)) (fuel : Nat) (rest : Input),
    members ≠ [] → AllMembersSpelled members → 2 * (compactMembers members).length + 1 ≤ fuel →
      membersFrom? fuel ((compactMembers members).map some ++ some '\x7d' :: rest) =
        some (members, rest)
  | [], fuel, rest, hne, _, _ => absurd rfl hne
  | [(some name, v)], fuel + 1, rest, _, hspelled, hfuel => by
    have hlength : 2 * v.compact.length ≤ fuel := by
      simp only [compactMembers, List.length_append, List.length_cons] at hfuel
      omega
    exact membersFrom?_last (valueFrom?_compact v fuel _ hspelled.2.1 hlength (.brace rest))
  | (some name, v) :: m :: ms, fuel + 1, rest, _, hspelled, hfuel => by
    have hne := List.cons_ne_nil m ms
    rw [compactMembers_cons (some name) v hne, List.length_append, List.length_append,
      List.length_cons, List.length_cons] at hfuel
    exact membersFrom?_more hne
      (valueFrom?_compact v fuel _ hspelled.2.1 (by omega) (.comma _))
      (membersFrom?_compact (m :: ms) fuel rest hne hspelled.2.2 (by omega))

end

theorem ofChars?_compact {v : Json} (h : v.IsSpelled) : ofChars? (v.compact.map some) = some v := by
  have hread := valueFrom?_compact v (2 * v.compact.length + 2) [] h (by omega) .nothing
  rw [List.append_nil] at hread
  rw [ofChars?, List.length_map, hread]
  rfl

theorem ofBytes?_compact {v : Json} (h : v.IsSpelled) :
    ofBytes? (Text.Utf8.encode v.compact) = some v := by
  rw [ofBytes?, Text.Utf8.decode_encode, ofChars?_compact h]

end EntryPoints.Json
