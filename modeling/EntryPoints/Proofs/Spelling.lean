import EntryPoints.Proofs.PathTexts
import EntryPoints.Proofs.Store
import EntryPoints.Stage

/-!
Spellings of a path. Pieces that name nothing may stand anywhere before the last telling piece, and
a path leads where it leads without them (`target_rephrased`). So what a search finds in a staged
root is found again under its path from that root, and needs no search there (`resolve_found`).
-/
namespace EntryPoints

/-- The second list takes the way of the first: the two differ in idle steps only, and the second
does not end in such a step unless the first does. -/
inductive Rephrases : List Step → List Step → Prop where
  | idle {a b : List Step} (ha : ∀ x ∈ a, x.isIdle = true) (hb : ∀ x ∈ b, x.isIdle = true)
      (hend : a = [] → b = []) : Rephrases a b
  | step {before before' : List Step} (hbefore : ∀ x ∈ before, x.isIdle = true)
      (hbefore' : ∀ x ∈ before', x.isIdle = true) {step : Step} (hstep : step.isIdle = false)
      {a b : List Step} (hrest : Rephrases a b) :
      Rephrases (before ++ step :: a) (before' ++ step :: b)

namespace Rephrases

theorem cons {a b : List Step} (step : Step) (h : Rephrases a b) :
    Rephrases (step :: a) (step :: b) := by
  cases hstep : step.isIdle with
  | false =>
    have none : ∀ x ∈ ([] : List Step), x.isIdle = true := by simp
    exact .step none none hstep h
  | true =>
    cases h with
    | idle ha hb _ =>
      exact .idle (List.forall_mem_cons.mpr ⟨hstep, ha⟩) (List.forall_mem_cons.mpr ⟨hstep, hb⟩)
        (by simp)
    | @step before before' hbefore hbefore' last hlast a b hrest =>
      have hlonger : ∀ x ∈ step :: before, x.isIdle = true :=
        List.forall_mem_cons.mpr ⟨hstep, hbefore⟩
      have hlonger' : ∀ x ∈ step :: before', x.isIdle = true :=
        List.forall_mem_cons.mpr ⟨hstep, hbefore'⟩
      exact .step hlonger hlonger' hlast hrest

theorem append {a b : List Step} (front : List Step) (h : Rephrases a b) :
    Rephrases (front ++ a) (front ++ b) := by
  induction front with
  | nil => exact h
  | cons step front ih => exact ih.cons step

/-- Lists with the same steps apart from idle ones, the second of which ends in no idle step. -/
theorem of_filter {a b : List Step} (h : a.filter (!·.isIdle) = b.filter (!·.isIdle))
    (hend : ∀ x, b.getLast? = some x → x.isIdle = false) : Rephrases a b := by
  generalize hkept : b.filter (!·.isIdle) = kept at h
  -- Induction on the steps that both keep. Each list is cut at the first of them.
  induction kept generalizing a b with
  | nil =>
    have ha : ∀ x ∈ a, x.isIdle = true := by simpa using List.filter_eq_nil_iff.mp h
    have hb : ∀ x ∈ b, x.isIdle = true := by simpa using List.filter_eq_nil_iff.mp hkept
    refine .idle ha hb fun _ => ?_
    cases hlast : b.getLast? with
    | none => exact List.getLast?_eq_none_iff.mp hlast
    | some x =>
      have hbusy : x.isIdle = false := hend x hlast
      simp [hb x (List.mem_of_getLast? hlast)] at hbusy
  | cons step kept ih =>
    obtain ⟨before, rest, rfl, hbefore, hstep, hrest⟩ := List.filter_eq_cons_iff.mp h
    obtain ⟨before', rest', rfl, hbefore', _, hrest'⟩ := List.filter_eq_cons_iff.mp hkept
    refine .step (by simpa using hbefore) (by simpa using hbefore') (by simpa using hstep) ?_
    refine ih (b := rest') ?_ hrest' hrest
    intro x hx
    refine hend x ?_
    obtain ⟨others, rfl⟩ := List.getLast?_eq_some_iff.mp hx
    exact List.getLast?_eq_some_iff.mpr ⟨before' ++ step :: others, by simp⟩

end Rephrases

namespace FileTree

variable {files : FileTree}

theorem course_idle {here : Location} (hdirectory : files.node? here = some .directory)
    {idle : List Step} (hidle : ∀ x ∈ idle, x.isIdle = true) (rest : List Step) :
    files.course .reach here (idle ++ rest) = files.course .reach here rest := by
  induction idle with
  | nil => rfl
  | cons x idle ih =>
    obtain ⟨hx, hothers⟩ := List.forall_mem_cons.mp hidle
    cases x with
    | enter name => cases hx
    | up => cases hx
    | stay => simpa [course, Step.refusal?, hdirectory] using ih hothers
    | close => simpa [course, Step.refusal?, hdirectory] using ih hothers

theorem course_rephrased (files : FileTree) {a b : List Step} (h : Rephrases a b)
    (here : Location) :
    (∀ place, files.course .reach here a = .arrived (.node place) →
      files.course .reach here b = .arrived (.node place)) ∧
    ∀ there link rest, files.course .reach here a = .crossing there link rest →
      ∃ rest', files.course .reach here b = .crossing there link rest' ∧ Rephrases rest rest' := by
  induction h generalizing here with
  | @idle a b ha hb hend =>
    -- An idle step asks for a directory, so an empty list must not become one that has a step.
    by_cases hempty : a = []
    · subst hempty
      obtain rfl : b = [] := hend rfl
      exact ⟨fun _ harrived => harrived, fun _ _ _ hcrossing => by cases hcrossing⟩
    · by_cases hdirectory : files.node? here = some .directory
      · have hcourse := course_idle hdirectory ha []
        have hcourse' := course_idle hdirectory hb []
        rw [List.append_nil] at hcourse hcourse'
        rw [hcourse, hcourse']
        exact ⟨fun _ harrived => harrived, fun _ _ _ hcrossing => by cases hcrossing⟩
      · obtain ⟨cause, hstuck⟩ := course_stuck .reach hdirectory hempty
        rw [hstuck]
        exact ⟨fun _ harrived => (by cases harrived), fun _ _ _ hcrossing => by cases hcrossing⟩
  | @step before before' hbefore hbefore' step hstep a b hrest ih =>
    by_cases hdirectory : files.node? here = some .directory
    · rw [course_idle hdirectory hbefore, course_idle hdirectory hbefore']
      cases step with
      | stay => cases hstep
      | close => cases hstep
      | up => simpa [course, Step.refusal?, hdirectory] using ih here.dropLast
      | enter name =>
        have hsame : (Step.enter name).refusal? .reach here (some .directory) a =
            (Step.enter name).refusal? .reach here (some .directory) b := by
          simp [Step.refusal?]
        simp only [course, reduceCtorEq, false_and, if_false, hdirectory, hsame]
        split
        · exact ⟨fun _ harrived => (by cases harrived), fun _ _ _ hcrossing => by cases hcrossing⟩
        · cases hnode : files.node? (here ++ [name]) with
          | none =>
            by_cases hlast : a = [] <;> simp [Course.entering, hlast]
          | some node =>
            cases node with
            | file f => exact ih (here ++ [name])
            | directory => exact ih (here ++ [name])
            | link target =>
              simp only [Course.entering, reduceCtorEq, false_and, if_false]
              refine ⟨fun _ harrived => (by cases harrived), fun _ _ _ hcrossing => ?_⟩
              cases hcrossing
              exact ⟨b, rfl, hrest⟩
    · obtain ⟨cause, hstuck⟩ := course_stuck .reach hdirectory
        (List.append_ne_nil_of_right_ne_nil before (List.cons_ne_nil step a))
      rw [hstuck]
      exact ⟨fun _ harrived => (by cases harrived), fun _ _ _ hcrossing => by cases hcrossing⟩

theorem route_rephrased {a b : List Step} (h : Rephrases a b) {links : Nat} {here place : Location}
    (hroute : files.route .reach links here a = .ok (.node place)) :
    files.route .reach links here b = .ok (.node place) := by
  induction links using Nat.strongRecOn generalizing here a b with
  | ind links ih =>
    obtain ⟨harrived, hcrossing⟩ := course_rephrased files h here
    apply route_ok_iff.mpr
    rcases route_ok_iff.mp hroute with hcourse |
      ⟨there, link, rest, fewer, hcourse, rfl, hlink, honward⟩
    · exact .inl (harrived place hcourse)
    · obtain ⟨rest', hcourse', hrest⟩ := hcrossing there link rest hcourse
      exact .inr ⟨there, link, rest', fewer, hcourse', rfl, hlink,
        ih fewer (Nat.lt_succ_self fewer) (hrest.append (Path.steps link)) honward⟩

theorem target_of_lookup {p : Path} {node : Node} (h : files.lookup p = .ok node) :
    ∃ place, files.target .reach p = .ok (.node place) ∧ files.node? place = some node := by
  obtain ⟨place, hdestination, hnode⟩ := lookup_eq_ok_iff.mp h
  cases htarget : files.target .reach p with
  | error cause => simp [destination, htarget, Except.toOption] at hdestination
  | ok target =>
    obtain rfl : target.destination = place := by
      simpa [destination, htarget, Except.toOption] using hdestination
    cases target with
    | node here => exact ⟨here, rfl, hnode⟩
    | vacant parent name =>
      have hfree : files.node? (parent ++ [name]) = none := (target_sound htarget).2.2
      simp [Target.destination, hfree] at hnode

theorem lookup_of_target {p : Path} {place : Location} {node : Node}
    (h : files.target .reach p = .ok (.node place)) (hnode : files.node? place = some node) :
    files.lookup p = .ok node :=
  lookup_eq_ok_iff.mpr ⟨place, by simp [destination, h, Except.toOption, Target.destination], hnode⟩

/-- A path whose steps rephrase those of another leads where the other leads to, unless its text is
unfit for a path. -/
theorem target_rephrased {p q : Path} (h : Rephrases (Path.steps p) (Path.steps q))
    (hnul : Path.nul ∉ q) (hne : q ≠ []) (hshort : q.length < pathLimit) {place : Location}
    (htarget : files.target .reach p = .ok (.node place)) :
    files.target .reach q = .ok (.node place) := by
  have hroute := route_rephrased h (route_of_target htarget)
  exact target_eq_ok_iff.mpr ⟨hnul, hne, fun _ => hshort, hroute⟩

end FileTree

namespace Path

theorem isAbsolute_join {base : Path} (h : isAbsolute base = true) (p : Path) :
    isAbsolute (join base p) = true := by
  have hhead : base.head? = some slash := by simpa [isAbsolute] using h
  unfold join
  split
  · assumption
  · split <;> simp [isAbsolute, hhead]

theorem join_ne_nil (base : Path) {p : Path} (h : p ≠ []) : join base p ≠ [] := by
  unfold join
  split
  · exact h
  · split <;> simp [h]

theorem pieces_append_slash (p : Path) : pieces (p ++ [slash]) = pieces p ++ [[]] :=
  Text.cut_append slash p []

theorem pieces_join (base : Path) {p : Path} (hp : isAbsolute p = false) :
    ∃ front, pieces (join base p) = front ++ pieces p ∧
      front.filter isTelling = (pieces base).filter isTelling := by
  rw [join, if_neg (by simp [hp])]
  split
  · rename_i hslash
    rcases hslash with rfl | hslash
    · exact ⟨[], rfl, by decide⟩
    · obtain ⟨front, rfl⟩ := List.getLast?_eq_some_iff.mp hslash
      refine ⟨pieces front, ?_, by simp [pieces_append_slash, isTelling]⟩
      rw [List.append_assoc]
      exact Text.cut_append slash front p
  · exact ⟨pieces base, Text.cut_append slash base p, rfl⟩

theorem telling_join (base : Path) {p : Path} (hp : isAbsolute p = false) :
    (pieces (join base p)).filter isTelling =
      (pieces base).filter isTelling ++ (pieces p).filter isTelling := by
  obtain ⟨front, hpieces, hfront⟩ := pieces_join base hp
  rw [hpieces, List.filter_append, hfront]

theorem filter_filterMap_step? (ps : List Path) :
    (ps.filterMap step?).filter (!·.isIdle) = (ps.filter isTelling).filterMap step? := by
  induction ps with
  | nil => rfl
  | cons piece ps ih =>
    by_cases hempty : piece = []
    · simpa [step?, isTelling, hempty] using ih
    · by_cases hdot : piece = [dot]
      · simpa [step?, isTelling, hdot, Step.isIdle] using ih
      · by_cases hdots : piece = [dot, dot] <;>
          simpa [step?, isTelling, hempty, hdot, hdots, Step.isIdle] using ih

theorem filter_steps (p : Path) :
    (steps p).filter (!·.isIdle) = ((pieces p).filter isTelling).filterMap step? := by
  have hclose : (if p.getLast? = some slash then [Step.close] else []).filter (!·.isIdle) = [] := by
    split <;> rfl
  rw [steps, List.filter_append, hclose, List.append_nil, filter_filterMap_step?]

theorem last_step {p piece : Path} (h : (pieces p).getLast? = some piece)
    (htelling : isTelling piece = true) {x : Step} (hx : (steps p).getLast? = some x) :
    x.isIdle = false := by
  have hopen : p.getLast? ≠ some slash := by
    intro hslash
    obtain ⟨front, rfl⟩ := List.getLast?_eq_some_iff.mp hslash
    obtain rfl : [] = piece := by simpa [pieces_append_slash] using h
    cases htelling
  obtain ⟨front, hpieces⟩ := List.getLast?_eq_some_iff.mp h
  obtain ⟨hempty, hdot⟩ : piece ≠ [] ∧ piece ≠ [dot] := by simpa [isTelling] using htelling
  rw [steps, if_neg hopen, List.append_nil, hpieces, List.filterMap_append] at hx
  by_cases hdots : piece = [dot, dot]
  · obtain rfl : Step.up = x := by simpa [step?, hempty, hdot, hdots] using hx
    rfl
  · obtain rfl : Step.enter piece = x := by simpa [step?, hempty, hdot, hdots] using hx
    rfl

/-- What is left of a path below another begins with a piece that tells. -/
theorem piecesBelow?_eq_some {base ps rest : List Path} (h : piecesBelow? base ps = some rest) :
    ps.filter isTelling = base ++ rest.filter isTelling ∧ rest <:+ ps ∧
      ∀ piece, rest.head? = some piece → isTelling piece = true := by
  induction ps generalizing base with
  | nil =>
    simp only [piecesBelow?] at h
    split at h
    · rename_i hbase
      cases h
      simp [hbase]
    · cases h
  | cons p ps ih =>
    unfold piecesBelow? at h
    split at h
    · rename_i htelling
      cases base with
      | nil =>
        cases h
        refine ⟨rfl, List.suffix_rfl, ?_⟩
        intro piece hpiece
        cases hpiece
        exact htelling
      | cons b bs =>
        dsimp only at h
        split at h
        · rename_i hp
          obtain ⟨hfilter, hsuffix, hhead⟩ := ih h
          refine ⟨?_, hsuffix.trans (List.suffix_cons p ps), hhead⟩
          rw [List.filter_cons_of_pos htelling, hfilter, hp]
          rfl
        · cases h
    · -- A piece that names nothing is passed, whether or not pieces of the base are left.
      rename_i hidle
      obtain ⟨hfilter, hsuffix, hhead⟩ := ih h
      refine ⟨?_, hsuffix.trans (List.suffix_cons p ps), hhead⟩
      rw [List.filter_cons_of_neg hidle, hfilter]

theorem filter_dropWhile_not {α : Type} (p : α → Bool) (xs : List α) :
    (xs.dropWhile (!p ·)).filter p = xs.filter p := by
  induction xs with
  | nil => rfl
  | cons x xs ih => cases h : p x <;> simp [h, ih]

theorem filter_trimEnd (ps : List Path) : (trimEnd ps).filter isTelling = ps.filter isTelling := by
  rw [trimEnd, List.filter_reverse, filter_dropWhile_not, ← List.filter_reverse,
    List.reverse_reverse]

theorem prefix_trimEnd (ps : List Path) : trimEnd ps <+: ps := by
  rw [trimEnd, ← List.reverse_suffix, List.reverse_reverse]
  exact List.dropWhile_suffix _

theorem last_trimEnd {ps : List Path} (h : trimEnd ps ≠ []) :
    ∃ piece, (trimEnd ps).getLast? = some piece ∧ isTelling piece = true := by
  have hsome : ps.reverse.dropWhile (!isTelling ·) ≠ [] := by simpa [trimEnd] using h
  refine ⟨_, ?_, by simpa using List.head_dropWhile_not (!isTelling ·) hsome⟩
  rw [trimEnd, List.getLast?_reverse, List.head?_eq_some_head hsome]

theorem pieces_ofPieces_trimEnd {p : Path} {ps : List Path} (h : ps <:+ pieces p)
    (hne : ofPieces (trimEnd ps) ≠ []) : pieces (ofPieces (trimEnd ps)) = trimEnd ps := by
  refine Text.cut_join ?_ ?_
  · intro piece hpiece
    exact Text.not_mem_of_mem_cut (h.subset ((prefix_trimEnd ps).subset hpiece))
  · intro hnone
    rw [hnone] at hne
    exact hne rfl

/-- The pieces of what is left of a path below `base`: those of the path from there on, up to the
last one that tells. -/
theorem pieces_of_below? {base p q : Path} (hbase : base ≠ []) (h : below? base p = some q)
    (hne : q ≠ []) :
    ∃ rest, piecesBelow? ((pieces base).filter isTelling) (pieces p) = some rest ∧
      pieces q = trimEnd rest := by
  rw [below?, if_neg hbase] at h
  split at h
  · obtain ⟨rest, hrest, rfl⟩ := Option.map_eq_some_iff.mp h
    exact ⟨rest, hrest, pieces_ofPieces_trimEnd (piecesBelow?_eq_some hrest).2.1 hne⟩
  · cases h

/-- What is left of a path below `base` has the telling pieces of the path that come after those of
`base`, and ends in one of them. -/
theorem pieces_below {base p q : Path} (hbase : base ≠ []) (h : below? base p = some q)
    (hne : q ≠ []) :
    (pieces p).filter isTelling = (pieces base).filter isTelling ++ (pieces q).filter isTelling ∧
      ∃ piece, (pieces q).getLast? = some piece ∧ isTelling piece = true := by
  obtain ⟨rest, hrest, hpieces⟩ := pieces_of_below? hbase h hne
  constructor
  · rw [(piecesBelow?_eq_some hrest).1, hpieces, filter_trimEnd]
  · rw [hpieces]
    apply last_trimEnd
    rw [← hpieces]
    exact Text.cut_ne_nil slash q

theorem isAbsolute_of_below? {base p q : Path} (hbase : base ≠ []) (h : below? base p = some q) :
    isAbsolute q = false := by
  cases q with
  | nil => rfl
  | cons c tail =>
    obtain ⟨rest, hrest, hpieces⟩ := pieces_of_below? hbase h (List.cons_ne_nil c tail)
    cases habsolute : isAbsolute (c :: tail) with
    | false => rfl
    | true =>
      -- An absolute path begins with an empty piece, which does not tell.
      obtain rfl : c = slash := by simpa [isAbsolute] using habsolute
      have hprefix : pieces (slash :: tail) <+: rest := by
        rw [hpieces]
        exact prefix_trimEnd rest
      have hempty : pieces (slash :: tail) = [] :: pieces tail := by simp [pieces, Text.cut]
      obtain ⟨more, rfl⟩ := hprefix
      have hhead := (piecesBelow?_eq_some hrest).2.2 [] (by rw [hempty]; rfl)
      cases hhead

/-- The steps of a path that leads through `base` are rephrased by those of `base` and the rest. -/
theorem rephrases_below {base p q : Path} (hbase : base ≠ []) (h : below? base p = some q)
    (hne : q ≠ []) : Rephrases (steps p) (steps (join base q)) := by
  have hq := isAbsolute_of_below? hbase h
  obtain ⟨htelling, last, hlast, hlastTelling⟩ := pieces_below hbase h hne
  apply Rephrases.of_filter
  · rw [filter_steps, filter_steps, telling_join base hq, htelling]
  · intro x hx
    obtain ⟨front, hpieces, _⟩ := pieces_join base hq
    have hjoin : (pieces (join base q)).getLast? = some last := by
      rw [hpieces, List.getLast?_append, hlast]
      rfl
    exact last_step hjoin hlastTelling hx

theorem mem_telling {c : UInt8} (hslash : c ≠ slash) (hdot : c ≠ dot) (p : Path) :
    (∃ piece ∈ (pieces p).filter isTelling, c ∈ piece) ↔ c ∈ p := by
  rw [← Text.mem_cut hslash p]
  constructor
  · rintro ⟨piece, hpiece, hc⟩
    exact ⟨piece, (List.mem_filter.mp hpiece).1, hc⟩
  · rintro ⟨piece, hpiece, hc⟩
    refine ⟨piece, List.mem_filter.mpr ⟨hpiece, ?_⟩, hc⟩
    have hempty : piece ≠ [] := List.ne_nil_of_mem hc
    have hidle : piece ≠ [dot] := by
      rintro rfl
      exact hdot (List.mem_singleton.mp hc)
    simp [isTelling, hempty, hidle]

end Path

namespace FileTree

variable {files : FileTree}

theorem target_below {base p q : Path} (hbase : base ≠ []) (h : Path.below? base p = some q)
    (hne : q ≠ []) (hshort : (Path.join base q).length < pathLimit) {place : Location}
    (htarget : files.target .reach p = .ok (.node place)) :
    files.target .reach (Path.join base q) = .ok (.node place) := by
  have hnul : Path.nul ∉ p := by
    intro hmem
    simp [target, hmem] at htarget
  refine target_rephrased (Path.rephrases_below hbase h hne) ?_ (Path.join_ne_nil base hne) hshort
    htarget
  rw [← Path.mem_telling (by decide) (by decide),
    Path.telling_join base (Path.isAbsolute_of_below? hbase h),
    ← (Path.pieces_below hbase h hne).1,
    Path.mem_telling (by decide) (by decide)]
  exact hnul

theorem lookup_below {base p q : Path} (hbase : base ≠ []) (h : Path.below? base p = some q)
    (hne : q ≠ []) (hshort : (Path.join base q).length < pathLimit) {node : Node}
    (hlookup : files.lookup p = .ok node) : files.lookup (Path.join base q) = .ok node := by
  obtain ⟨place, htarget, hnode⟩ := target_of_lookup hlookup
  exact lookup_of_target (target_below hbase h hne hshort htarget) hnode

theorem mem_directories {root dir : Path} {reach : Reach} (h : dir ∈ files.directories root reach) :
    dir = root ∨ ∃ names, (∀ name ∈ names, isName name = true) ∧
      dir = Path.join root (Path.ofPieces names) := by
  rcases List.mem_append.mp h with htop | hinner
  · split at htop
    · exact .inl (List.mem_singleton.mp htop)
    · exact absurd htop List.not_mem_nil
  · split at hinner
    · obtain ⟨⟨names, node⟩, hbelow, hdir⟩ := List.mem_filterMap.mp hinner
      dsimp only at hdir
      split at hdir
      · cases hdir
        exact .inr ⟨names, isName_of_mem_below hbelow, rfl⟩
      · cases hdir
    · exact absurd hinner List.not_mem_nil

theorem isAbsolute_of_mem_directories {root : Path} {reach : Reach}
    (hroot : Path.isAbsolute root = true) {dir : Path} (h : dir ∈ files.directories root reach) :
    Path.isAbsolute dir = true := by
  rcases mem_directories h with rfl | ⟨names, _, rfl⟩
  · exact hroot
  · exact Path.isAbsolute_join hroot _

end FileTree

namespace Search

variable {s : Search} {files : FileTree} {root : Path} {name : Text} {m : Match}

theorem find?_eq_some (h : s.find? files root name = some m) (horigin : m.origin ≠ .host) :
    s.inBinDirs? files root name = some m.path ∨ s.inTree? files root name = some m.path := by
  unfold find? at h
  split at h
  · rename_i path hpath
    cases h
    exact .inl hpath
  · split at h
    · rename_i path hpath
      cases h
      exact .inr hpath
    · obtain ⟨path, _, rfl⟩ := Option.map_eq_some_iff.mp h
      exact absurd rfl horigin

theorem host_of_find? (h : s.find? files root name = some m) (horigin : m.origin = .host) :
    s.host.find? name = some m.path := by
  unfold find? at h
  split at h
  · cases h
    cases horigin
  · split at h
    · cases h
      cases horigin
    · obtain ⟨path, hpath, rfl⟩ := Option.map_eq_some_iff.mp h
      exact hpath

theorem isExecutable_of_find? (h : s.find? files root name = some m) (horigin : m.origin ≠ .host) :
    files.isExecutable m.path = true := by
  rcases find?_eq_some h horigin with hfound | hfound
  · exact List.find?_some hfound
  · exact List.find?_some hfound

theorem path_of_find? (h : s.find? files root name = some m) (horigin : m.origin ≠ .host) :
    (∃ dir ∈ s.binDirs, m.path = Path.join (Path.join root dir) name) ∨
      ∃ dir ∈ files.directories root s.reach, m.path = Path.join dir name := by
  rcases find?_eq_some h horigin with hfound | hfound
  · obtain ⟨dir, hdir, hpath⟩ := List.mem_map.mp (List.mem_of_find?_eq_some hfound)
    exact .inl ⟨dir, hdir, hpath.symm⟩
  · obtain ⟨dir, hdir, hpath⟩ := List.mem_map.mp (List.mem_of_find?_eq_some hfound)
    exact .inr ⟨dir, hdir, hpath.symm⟩

theorem isAbsolute_of_find? (h : s.find? files root name = some m) (horigin : m.origin ≠ .host)
    (hroot : Path.isAbsolute root = true) : Path.isAbsolute m.path = true := by
  rcases path_of_find? h horigin with ⟨dir, _, hpath⟩ | ⟨dir, hdir, hpath⟩
  · rw [hpath]
    exact Path.isAbsolute_join (Path.isAbsolute_join hroot dir) name
  · rw [hpath]
    exact Path.isAbsolute_join (FileTree.isAbsolute_of_mem_directories hroot hdir) name

end Search

namespace Stage

variable {s : Stage} {files : FileTree} {word path : Text} {m : Match}

theorem find?_of_searched (h : s.resolve files word = .searched path m) :
    s.search.find? files s.root (s.relative word) = some m ∧
      path = (s.fromRoot m.path).text := by
  simp only [resolve] at h
  split at h
  · cases h
  · split at h
    · cases h
    · rename_i found hfound
      cases h
      exact ⟨hfound, rfl⟩

theorem below?_fromRoot {p : Path} (habsolute : Path.isAbsolute p = true)
    (hrelative : Path.isAbsolute (s.fromRoot p) = false) :
    Path.below? s.root p = some (s.fromRoot p) := by
  cases hbelow : Path.below? s.root p with
  | some rest => rw [fromRoot, hbelow, Option.getD_some]
  | none =>
    rw [fromRoot, hbelow, Option.getD_none, habsolute] at hrelative
    cases hrelative

theorem holds_fromRoot (hroot : s.root ≠ []) {p : Path} (habsolute : Path.isAbsolute p = true)
    (hthere : files.holds p = true) (hne : s.fromRoot p ≠ [])
    (hrelative : Path.isAbsolute (s.fromRoot p) = false)
    (hshort : (Path.join s.root (s.fromRoot p)).length < pathLimit) :
    files.holds (Path.join s.root (s.fromRoot p)) = true := by
  have hbelow := below?_fromRoot habsolute hrelative
  cases hlookup : files.lookup p with
  | error cause =>
    rw [FileTree.holds, hlookup] at hthere
    cases hthere
  | ok node =>
    rw [FileTree.holds, FileTree.lookup_below hroot hbelow hne hshort hlookup]
    rfl

theorem root_ne_nil (hroot : Path.isAbsolute s.root = true) : s.root ≠ [] := by
  intro hempty
  rw [hempty] at hroot
  cases hroot

/-- What is found in an absolute root is named by its path from there, if that is a text. -/
theorem resolve_found (h : s.resolve files word = .searched path m) (horigin : m.origin ≠ .host)
    (hroot : Path.isAbsolute s.root = true) (htext : (s.fromRoot m.path).IsText)
    (hpath : s.relative path = path) (hne : path ≠ []) (hrelative : Path.isAbsolute path = false)
    (hshort : (Path.join s.root path).length < pathLimit) :
    s.resolve files path = .literal path := by
  obtain ⟨hfind, hsame⟩ := find?_of_searched h
  have hseen : Path.of path = s.fromRoot m.path := by rw [hsame, htext]
  have habsolute := Search.isAbsolute_of_find? hfind horigin hroot
  have hthere := FileTree.holds_of_isExecutable (Search.isExecutable_of_find? hfind horigin)
  have hholds : files.holds (Path.join s.root path) = true := by
    rw [hseen] at hrelative hshort ⊢
    refine holds_fromRoot (root_ne_nil hroot) habsolute hthere ?_ hrelative hshort
    rwa [← hseen, ne_eq, Path.of_eq_nil_iff]
  simp [resolve, hpath, hholds]

end Stage
end EntryPoints
