import EntryPoints.Failure

/-!
Words of a command text. Gaps are runs of spaces, tabs, carriage returns and newlines. A quotation
mark at the start of a word takes everything up to the next mark of its kind into the word, which
ends there; anywhere else it is an ordinary character. Nothing is removed from a word, so words
joined by single spaces split into themselves again (`split?_unsplit`).
-/
namespace EntryPoints

namespace Words

def isGap (c : Char) : Bool := c = ' ' || c = '\t' || c = '\r' || c = '\n'

def isMark (c : Char) : Bool := c = '\'' || c = '"'

/-- A word that no mark opens. -/
def IsPlain (w : Text) : Prop :=
  w ≠ [] ∧ (∀ c ∈ w, isGap c = false) ∧ ∀ c, w.head? = some c → isMark c = false

theorem isPlain_cons {c : Char} {w : Text} :
    IsPlain (c :: w) ↔ (!isMark c && (c :: w).all (!isGap ·)) = true := by
  simp [IsPlain, and_comm]

instance : (w : Text) → Decidable (IsPlain w)
  | [] => .isFalse fun h => h.1 rfl
  | _ :: _ => decidable_of_iff' _ isPlain_cons

/-- A word between two marks of one kind, with none of that kind inside. -/
def IsQuotation (w : Text) : Prop :=
  ∃ mark inner, isMark mark = true ∧ mark ∉ inner ∧ w = mark :: inner ++ [mark]

def IsWord (w : Text) : Prop := IsPlain w ∨ IsQuotation w

/-- Where a scan stands: in a gap, in a plain word, or in a quotation that `mark` will close. -/
inductive State where
  | gap
  | plain
  | quotation (mark : Char)
  deriving DecidableEq, Repr

/-- The state after the first character of a word. -/
def State.opening (c : Char) : State := if isMark c then .quotation c else .plain

def push (c : Char) : List Text → List Text
  | [] => [[c]]
  | w :: rest => (c :: w) :: rest

/-- The words from here on, the first of them being the rest of the word that is open, if one is.
There are none if a quotation stays open. -/
@[simp]
def scan : State → Text → Option (List Text)
  | .gap, [] => some []
  | .plain, [] => some [[]]
  | .quotation _, [] => none
  | .gap, c :: rest =>
    if isGap c then scan .gap rest else (scan (State.opening c) rest).map (push c)
  | .plain, c :: rest =>
    if isGap c then (scan .gap rest).map ([] :: ·) else (scan .plain rest).map (push c)
  | .quotation mark, c :: rest =>
    if c = mark then (scan .gap rest).map ([c] :: ·)
    else (scan (.quotation mark) rest).map (push c)

/-- The words of a text, unless a quotation in it is never closed. -/
def split? (t : Text) : Option (List Text) := scan .gap t

/-- The words of a text. The failure tells the whole text. -/
def split (t : Text) : Except Failure (List Text) :=
  match split? t with
  | some ws => .ok ws
  | none => .error (.unbalancedQuotes t)

def unsplit (ws : List Text) : Text := Text.join [' '] ws

theorem split_eq_ok_iff {t : Text} {ws : List Text} : split t = .ok ws ↔ split? t = some ws := by
  unfold split
  cases split? t <;> simp

theorem split_eq_error_iff {t : Text} {f : Failure} :
    split t = .error f ↔ split? t = none ∧ f = .unbalancedQuotes t := by
  unfold split
  cases split? t <;> simp [eq_comm]

theorem scan_plain {w : Text} (h : ∀ c ∈ w, isGap c = false) : scan .plain w = some [w] := by
  induction w with
  | nil => rfl
  | cons c w ih =>
    have hc : isGap c = false := h c List.mem_cons_self
    simp [hc, ih fun d hd => h d (List.mem_cons_of_mem _ hd), push]

theorem scan_plain_append {w : Text} (h : ∀ c ∈ w, isGap c = false) {g : Char} (hg : isGap g = true)
    (rest : Text) : scan .plain (w ++ g :: rest) = (scan .gap rest).map (w :: ·) := by
  induction w with
  | nil => simp [hg]
  | cons c w ih =>
    have hc : isGap c = false := h c List.mem_cons_self
    simp [hc, ih fun d hd => h d (List.mem_cons_of_mem _ hd), Function.comp_def, push]

theorem scan_quotation_append {mark : Char} {inner : Text} (h : mark ∉ inner) (rest : Text) :
    scan (.quotation mark) (inner ++ mark :: rest) =
      (scan .gap rest).map ((inner ++ [mark]) :: ·) := by
  induction inner with
  | nil => simp
  | cons c inner ih =>
    obtain ⟨hc, hinner⟩ : mark ≠ c ∧ mark ∉ inner := by simpa using h
    simp [Ne.symm hc, ih hinner, Function.comp_def, push]

theorem isGap_eq_false_of_isMark {c : Char} (h : isMark c = true) : isGap c = false := by
  simp only [isMark, Bool.or_eq_true, decide_eq_true_eq] at h
  rcases h with rfl | rfl <;> decide

theorem split?_plain_append {w : Text} (h : IsPlain w) {g : Char} (hg : isGap g = true)
    (rest : Text) : split? (w ++ g :: rest) = (split? rest).map (w :: ·) := by
  obtain ⟨hne, hgaps, hmark⟩ := h
  cases w with
  | nil => exact absurd rfl hne
  | cons c w =>
    have hc : isGap c = false := hgaps c List.mem_cons_self
    simp [split?, State.opening, hc, hmark c rfl, Function.comp_def, push,
      scan_plain_append (fun d hd => hgaps d (List.mem_cons_of_mem _ hd)) hg]

/-- A quotation is split off, whatever follows it. -/
theorem split?_quotation_append {w : Text} (h : IsQuotation w) (rest : Text) :
    split? (w ++ rest) = (split? rest).map (w :: ·) := by
  obtain ⟨mark, inner, hmark, hinner, rfl⟩ := h
  simp [split?, State.opening, isGap_eq_false_of_isMark hmark, hmark, Function.comp_def, push,
    scan_quotation_append hinner]

theorem split?_cons_gap {g : Char} (hg : isGap g = true) (rest : Text) :
    split? (g :: rest) = split? rest := by
  simp [split?, hg]

theorem split?_plain {w : Text} (h : IsPlain w) : split? w = some [w] := by
  obtain ⟨hne, hgaps, hmark⟩ := h
  cases w with
  | nil => exact absurd rfl hne
  | cons c w =>
    have hc : isGap c = false := hgaps c List.mem_cons_self
    simp [split?, State.opening, hc, hmark c rfl, push,
      scan_plain fun d hd => hgaps d (List.mem_cons_of_mem _ hd)]

/-- A word is split off where it ends, which a plain one does only in front of a gap. -/
theorem split?_append_of_isWord {w t : Text} (hw : IsWord w)
    (hends : IsPlain w → ∃ g rest, t = g :: rest ∧ isGap g = true) :
    split? (w ++ t) = (split? t).map (w :: ·) := by
  rcases hw with hplain | hquotation
  · obtain ⟨g, rest, rfl, hg⟩ := hends hplain
    rw [split?_plain_append hplain hg, split?_cons_gap hg]
  · exact split?_quotation_append hquotation t

theorem split?_word_append {w : Text} (h : IsWord w) (rest : Text) :
    split? (w ++ ' ' :: rest) = (split? rest).map (w :: ·) := by
  have hspace : isGap ' ' = true := by decide
  rw [split?_append_of_isWord h fun _ => ⟨' ', rest, rfl, hspace⟩, split?_cons_gap hspace]

theorem split?_word {w : Text} (h : IsWord w) : split? w = some [w] := by
  rcases h with hw | hw
  · exact split?_plain hw
  · simpa [split?] using split?_quotation_append hw []

theorem unsplit_cons (w : Text) {ws : List Text} (h : ws ≠ []) :
    unsplit (w :: ws) = w ++ ' ' :: unsplit ws := by
  obtain ⟨x, xs, rfl⟩ := List.exists_cons_of_ne_nil h
  simp [unsplit, Text.join]

theorem unsplit_prefix (w : Text) (ws : List Text) : w <+: unsplit (w :: ws) := by
  cases ws with
  | nil => exact List.prefix_rfl
  | cons x xs =>
    rw [unsplit_cons w (List.cons_ne_nil x xs)]
    exact List.prefix_append w _

theorem unsplit_cons_inj {w w' : Text} {ws : List Text}
    (h : unsplit (w :: ws) = unsplit (w' :: ws)) :
    w = w' := by
  by_cases hlast : ws = []
  · subst hlast
    exact h
  · rw [unsplit_cons w hlast, unsplit_cons w' hlast] at h
    exact List.append_cancel_right h

/-- But for the spaces between them, the characters are those of the words. -/
theorem mem_unsplit {c : Char} (hc : c ≠ ' ') (ws : List Text) :
    c ∈ unsplit ws ↔ ∃ w ∈ ws, c ∈ w := by
  induction ws with
  | nil => simp [unsplit, Text.join]
  | cons w ws ih =>
    cases ws with
    | nil => simp [unsplit, Text.join]
    | cons x xs =>
      rw [unsplit_cons w (List.cons_ne_nil x xs), List.mem_append, List.mem_cons, ih]
      simp [hc]

theorem split?_unsplit {ws : List Text} (h : ∀ w ∈ ws, IsWord w) :
    split? (unsplit ws) = some ws := by
  induction ws with
  | nil => rfl
  | cons w ws ih =>
    obtain ⟨hw, hws⟩ := List.forall_mem_cons.mp h
    cases ws with
    | nil => exact split?_word hw
    | cons x xs => rw [unsplit_cons w (List.cons_ne_nil x xs), split?_word_append hw, ih hws]; rfl

theorem scan_isSome_of_no_mark {s : State} (hs : ∀ mark, s ≠ .quotation mark) {t : Text}
    (h : ∀ c ∈ t, isMark c = false) : (scan s t).isSome = true := by
  induction t generalizing s with
  | nil =>
    cases s with
    | gap => rfl
    | plain => rfl
    | quotation mark => exact absurd rfl (hs mark)
  | cons c t ih =>
    obtain ⟨hc, ht⟩ := List.forall_mem_cons.mp h
    have hgap := ih (s := .gap) (by simp) ht
    have hplain := ih (s := .plain) (by simp) ht
    cases s with
    | gap => by_cases hsep : isGap c = true <;> simp [hsep, State.opening, hc, hgap, hplain]
    | plain => by_cases hsep : isGap c = true <;> simp [hsep, hgap, hplain]
    | quotation mark => exact absurd rfl (hs mark)

theorem split?_isSome_of_no_mark {t : Text} (h : ∀ c ∈ t, isMark c = false) :
    (split? t).isSome = true :=
  scan_isSome_of_no_mark (by simp) h

theorem filter_unsplit (ws : List Text) :
    (unsplit ws).filter (!isGap ·) = ws.flatten.filter (!isGap ·) := by
  induction ws with
  | nil => rfl
  | cons w ws ih =>
    cases ws with
    | nil => simp [unsplit, Text.join]
    | cons x xs =>
      have hspace : isGap ' ' = true := by decide
      rw [unsplit_cons w (List.cons_ne_nil x xs)]
      simp only [List.filter_append, List.filter_cons, hspace, ih, List.flatten_cons]
      simp

end Words
end EntryPoints
