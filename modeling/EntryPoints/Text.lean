/-!
Texts are lists of characters, so that every function on them is plain recursion on the list. What
cuts and joins them serves for paths as well, which are lists of bytes. Numbers are spelled here in
the three bases that the program's output uses.
-/
namespace EntryPoints

abbrev Text := List Char

namespace Text

/-- The text of a string. Fixed texts are written this way. -/
def of (s : String) : Text := s.toList

/-- What follows `start`, where the text begins with it. -/
def after? : Text → Text → Option Text
  | [], text => some text
  | _ :: _, [] => none
  | a :: start, b :: text => if a = b then after? start text else none

/-- The text without one `start` in front of it, if there is one. -/
def dropStart (start text : Text) : Text := (after? start text).getD text

def startsWith (start text : Text) : Bool := (after? start text).isSome

theorem after?_eq_some_iff {start text rest : Text} :
    after? start text = some rest ↔ start ++ rest = text := by
  induction start generalizing text with
  | nil => simp [after?, eq_comm]
  | cons a start ih =>
    cases text with
    | nil => simp [after?]
    | cons b text => by_cases h : a = b <;> simp [after?, h, ih]

theorem dropStart_append (start rest : Text) : dropStart start (start ++ rest) = rest := by
  have h : after? start (start ++ rest) = some rest := after?_eq_some_iff.mpr rfl
  simp [dropStart, h]

theorem startsWith_iff {start text : Text} :
    startsWith start text = true ↔ ∃ rest, start ++ rest = text := by
  simp [startsWith, Option.isSome_iff_exists, after?_eq_some_iff]

theorem dropStart_eq_self {start text : Text} (h : ¬ start <+: text) :
    dropStart start text = text := by
  cases hafter : after? start text with
  | none => simp [dropStart, hafter]
  | some rest => exact absurd ⟨rest, after?_eq_some_iff.mp hafter⟩ h

theorem dropStart_suffix (start text : Text) : dropStart start text <:+ text := by
  by_cases hstart : start <+: text
  · obtain ⟨rest, rfl⟩ := hstart
    rw [dropStart_append]
    exact List.suffix_append start rest
  · simp [dropStart_eq_self hstart]

def decimal (n : Nat) : Text := Nat.toDigits 10 n

def hexadecimal (n : Nat) : Text := Nat.toDigits 16 n

/-- Octal digits, three of them at least, as permission bits are written. -/
def octal (n : Nat) : Text :=
  let digits := Nat.toDigits 8 n
  List.replicate (3 - digits.length) '0' ++ digits

variable {α : Type}

/-- The lists in order, with `mark` between neighbours. -/
def join (mark : List α) : List (List α) → List α
  | [] => []
  | [t] => t
  | t :: rest => t ++ mark ++ join mark rest

theorem join_cons_cons (mark t u : List α) (ts : List (List α)) :
    join mark (t :: u :: ts) = t ++ mark ++ join mark (u :: ts) := rfl

variable [DecidableEq α]

/-- The stretches between the marks. There is always one. -/
def cut (mark : α) : List α → List (List α)
  | [] => [[]]
  | c :: rest =>
    if c = mark then [] :: cut mark rest
    else
      match cut mark rest with
      | [] => [[c]]
      | t :: ts => (c :: t) :: ts

theorem cut_ne_nil (mark : α) (t : List α) : cut mark t ≠ [] := by
  cases t with
  | nil => simp [cut]
  | cons c rest =>
    simp only [cut]
    split
    · simp
    · split <;> simp

theorem join_cut (mark : α) (t : List α) : join [mark] (cut mark t) = t := by
  induction t with
  | nil => rfl
  | cons c rest ih =>
    obtain ⟨first, others, h⟩ := List.exists_cons_of_ne_nil (cut_ne_nil mark rest)
    rw [h] at ih
    by_cases hc : c = mark
    · subst hc
      simpa [cut, join, h] using ih
    · cases others with
      | nil => simpa [cut, join, h, hc] using ih
      | cons second others => simpa [cut, join, h, hc] using ih

theorem cut_of_not_mem {mark : α} {t : List α} (h : mark ∉ t) : cut mark t = [t] := by
  induction t with
  | nil => rfl
  | cons c rest ih =>
    obtain ⟨hc, hrest⟩ : mark ≠ c ∧ mark ∉ rest := by simpa using h
    simp [cut, Ne.symm hc, ih hrest]

theorem not_mem_of_mem_cut {mark : α} {t piece : List α} (h : piece ∈ cut mark t) :
    mark ∉ piece := by
  induction t generalizing piece with
  | nil => simp_all [cut]
  | cons c rest ih =>
    simp only [cut] at h
    split at h
    · rcases List.mem_cons.mp h with rfl | h
      · exact List.not_mem_nil
      · exact ih h
    · rename_i hc
      split at h
      · have hpiece : piece = [c] := by simpa using h
        simpa [hpiece] using Ne.symm hc
      · rename_i first others hcut
        rcases List.mem_cons.mp h with rfl | h
        · have hfirst : mark ∉ first := ih (by simp [hcut])
          simp [hfirst, Ne.symm hc]
        · exact ih (by simp [hcut, h])

theorem cut_eq_concat (mark : α) (t : List α) : ∃ init last, cut mark t = init ++ [last] := by
  obtain ⟨init, last, hcut⟩ := (List.eq_nil_or_concat (cut mark t)).resolve_left (cut_ne_nil mark t)
  rw [List.concat_eq_append] at hcut
  exact ⟨init, last, hcut⟩

/-- Where two lists meet, the last stretch of the one runs on into the first of the other. -/
theorem cut_glue {mark : α} {a b last first : List α} {init others : List (List α)}
    (ha : cut mark a = init ++ [last]) (hb : cut mark b = first :: others) :
    cut mark (a ++ b) = init ++ (last ++ first) :: others := by
  induction a generalizing init last with
  | nil =>
    obtain ⟨rfl, rfl⟩ : init = [] ∧ last = [] := by
      simpa [cut, eq_comm, List.append_eq_singleton_iff] using ha
    simpa using hb
  | cons c a ih =>
    -- `c` opens a stretch of its own or goes on with the first, which may be the last one too.
    obtain ⟨front, final, hcut⟩ := cut_eq_concat mark a
    have hrest := ih hcut
    by_cases hc : c = mark
    · have hlonger : ([] :: front) ++ [final] = init ++ [last] := by
        rw [← ha]
        simp [cut, hc, hcut]
      obtain ⟨rfl, rfl⟩ := List.append_singleton_inj.mp hlonger
      simp [cut, hc, hrest]
    · cases front with
      | nil =>
        have hlonger : [] ++ [c :: final] = init ++ [last] := by
          rw [← ha]
          simp [cut, hc, hcut]
        obtain ⟨rfl, rfl⟩ := List.append_singleton_inj.mp hlonger
        simp [cut, hc, hrest]
      | cons x front =>
        have hlonger : ((c :: x) :: front) ++ [final] = init ++ [last] := by
          rw [← ha]
          simp [cut, hc, hcut]
        obtain ⟨rfl, rfl⟩ := List.append_singleton_inj.mp hlonger
        simp [cut, hc, hrest]

theorem cut_append (mark : α) (t rest : List α) :
    cut mark (t ++ mark :: rest) = cut mark t ++ cut mark rest := by
  obtain ⟨init, last, hcut⟩ := cut_eq_concat mark t
  have hrest : cut mark (mark :: rest) = [] :: cut mark rest := by simp [cut]
  rw [cut_glue hcut hrest, hcut]
  simp

theorem mem_cut {mark c : α} (h : c ≠ mark) (t : List α) :
    (∃ piece ∈ cut mark t, c ∈ piece) ↔ c ∈ t := by
  induction t with
  | nil => simp [cut]
  | cons d t ih =>
    obtain ⟨first, others, hcut⟩ := List.exists_cons_of_ne_nil (cut_ne_nil mark t)
    by_cases hd : d = mark
    · simp [cut, hd, ih, h]
    · rw [hcut] at ih
      simp [cut, hd, hcut, ← ih, or_assoc]

theorem cut_join {mark : α} {ts : List (List α)} (h : ∀ t ∈ ts, mark ∉ t) (hne : ts ≠ []) :
    cut mark (join [mark] ts) = ts := by
  induction ts with
  | nil => exact absurd rfl hne
  | cons t ts ih =>
    obtain ⟨ht, hts⟩ := List.forall_mem_cons.mp h
    cases ts with
    | nil => exact cut_of_not_mem ht
    | cons u us =>
      have hjoin : join [mark] (t :: u :: us) = t ++ mark :: join [mark] (u :: us) := by
        simp [join]
      rw [hjoin, cut_append, cut_of_not_mem ht, ih hts (List.cons_ne_nil u us)]
      rfl

end Text
end EntryPoints
