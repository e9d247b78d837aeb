import EntryPoints.Proofs.Decoding
import EntryPoints.Proofs.FormCases
import EntryPoints.Proofs.History
import EntryPoints.Proofs.Route
import Mathlib.Data.List.Forall2

/-!
Of a staged file, only the first line has a say. `FileTree.firstLines` cuts every file behind its
first line, and leaves names, kinds, modes and links alone. Each question that settling asks of a
tree has the same answer in the cut one, and so settling itself (`settle_firstLines`); trees that
are cut to the same one can therefore not be told apart (`alike_iff`).
-/
namespace EntryPoints

namespace Text

theorem trim_subset (t : Text) : trim t ⊆ t := by
  intro c hc
  have hkept := (List.dropWhile_suffix isBlank).subset (List.mem_reverse.mp hc)
  exact (List.dropWhile_suffix isBlank).subset (List.mem_reverse.mp hkept)

theorem trim_append_blank {c : Char} (h : isBlank c = true) (t : Text) :
    trim (t ++ [c]) = trim t := by
  unfold trim
  rw [List.dropWhile_append]
  split
  · rename_i hblank
    rw [List.isEmpty_iff.mp hblank]
    simp [h]
  · rw [List.reverse_append, List.reverse_singleton, List.singleton_append,
      List.dropWhile_cons_of_pos h]

end Text

namespace Directive

def firstLine (bytes : List UInt8) : List UInt8 := bytes.takeWhile (· ≠ 0x0a)

theorem throughNewline_firstLine (bytes : List UInt8) :
    throughNewline (firstLine bytes) = firstLine bytes := by
  induction bytes with
  | nil => rfl
  | cons byte bytes ih =>
    by_cases hnewline : byte = 0x0a
    · simp [firstLine, hnewline, throughNewline]
    · have hcons : firstLine (byte :: bytes) = byte :: firstLine bytes := by
        simp [firstLine, hnewline]
      rw [hcons, throughNewline, if_neg hnewline, ih]

theorem throughNewline_eq (bytes : List UInt8) :
    throughNewline bytes = firstLine bytes ∨ throughNewline bytes = firstLine bytes ++ [0x0a] := by
  induction bytes with
  | nil => exact .inl rfl
  | cons byte bytes ih =>
    by_cases hnewline : byte = 0x0a
    · exact .inr (by simp [firstLine, hnewline, throughNewline])
    · simpa [firstLine, throughNewline, hnewline] using ih

/-- The line is read with its newline if there is one, which is then a blank at its end. -/
theorem trim_throughNewline (bytes : List UInt8) :
    Text.trim (Text.Utf8.lenient (throughNewline bytes)) =
      Text.trim (Text.Utf8.lenient (firstLine bytes)) := by
  rcases throughNewline_eq bytes with hline | hline
  · rw [hline]
  · have hnewline : Text.Utf8.lenient (firstLine bytes ++ [0x0a]) =
        Text.Utf8.lenient (firstLine bytes) ++ ['\n'] :=
      Text.Utf8.lenient_append_low (c := '\n') (by decide) (firstLine bytes) []
    rw [hline, hnewline, Text.trim_append_blank (by decide)]

theorem line?_marked (rest : List UInt8) :
    line? (marker ++ rest) = some (Text.trim (Text.Utf8.lenient (throughNewline rest))) := rfl

theorem line?_of_not_marked {bytes : List UInt8} (h : ¬ marker <+: bytes) : line? bytes = none := by
  unfold line?
  split
  · exact absurd ⟨_, rfl⟩ h
  · rfl

theorem line?_firstLine (bytes : List UInt8) : line? (firstLine bytes) = line? bytes := by
  by_cases hmarked : marker <+: bytes
  · obtain ⟨rest, rfl⟩ := hmarked
    have hcut : firstLine (marker ++ rest) = marker ++ firstLine rest := by
      simp [firstLine, marker]
    rw [hcut, line?_marked, line?_marked, throughNewline_firstLine, trim_throughNewline]
  · have hcut : ¬ marker <+: firstLine bytes := by
      intro hstart
      exact hmarked (hstart.trans (List.takeWhile_prefix _))
    rw [line?_of_not_marked hmarked, line?_of_not_marked hcut]

theorem newline_not_mem_line {bytes : List UInt8} {line : Text} (h : line? bytes = some line) :
    '\n' ∉ line := by
  by_cases hmarked : marker <+: bytes
  · obtain ⟨rest, rfl⟩ := hmarked
    rw [line?_marked, trim_throughNewline, Option.some.injEq] at h
    subst h
    have hfirst : 0x0a ∉ firstLine rest := by
      intro hbyte
      simpa using List.all_eq_true.mp List.all_takeWhile _ hbyte
    intro hnewline
    have hread : '\n' ∉ Text.Utf8.lenient (firstLine rest) :=
      Text.Utf8.low_not_mem_lenient (by decide) (by decide) hfirst
    exact hread (Text.trim_subset _ hnewline)
  · rw [line?_of_not_marked hmarked] at h
    cases h

theorem ofBytes_firstLine (bytes : List UInt8) : ofBytes (firstLine bytes) = ofBytes bytes := by
  rw [ofBytes, line?_firstLine, ofBytes]

end Directive

def Node.firstLine : Node → Node
  | .file f => .file { f with bytes := Directive.firstLine f.bytes }
  | node => node

theorem Node.map_firstLine_eq_directory_iff (found : Option Node) :
    found.map firstLine = some .directory ↔ found = some .directory := by
  rcases found with _ | ⟨⟨⟩⟩ <;> simp [firstLine]

theorem Step.refusal?_firstLine (purpose : Purpose) (here : Location) (found : Option Node)
    (rest : List Step) (step : Step) :
    step.refusal? purpose here (found.map Node.firstLine) rest =
      step.refusal? purpose here found rest :=
  refusal?_congr (Node.map_firstLine_eq_directory_iff found)

theorem Course.entering_firstLine (found : Option Node) (purpose : Purpose) (here : Location)
    (name : Path) (rest : List Step) (onward : Course) :
    entering (found.map Node.firstLine) purpose here name rest onward =
      entering found purpose here name rest onward := by
  rcases found with _ | ⟨⟨⟩⟩ <;> rfl

namespace Contents

def firstLines : Contents → Contents
  | .empty => .empty
  | .entry name node inside rest => .entry name node.firstLine inside.firstLines rest.firstLines

theorem find?_firstLines (c : Contents) (name : Path) :
    c.firstLines.find? name = (c.find? name).map (Prod.map Node.firstLine firstLines) := by
  induction c with
  | empty => rfl
  | entry n node inside rest _ ih =>
    by_cases hname : name = n <;> simp [firstLines, find?, hname, ih]

theorem node?_firstLines (c : Contents) (place : Location) :
    c.firstLines.node? place = (c.node? place).map Node.firstLine := by
  induction place generalizing c with
  | nil => rfl
  | cons name place ih =>
    simp only [node?, find?_firstLines]
    cases c.find? name with
    | none => rfl
    | some found => by_cases hplace : place = [] <;> simp [hplace, ih]

theorem at?_firstLines (c : Contents) (place : Location) :
    c.firstLines.at? place = (c.at? place).map firstLines := by
  induction place generalizing c with
  | nil => rfl
  | cons name place ih =>
    simp only [at?, find?_firstLines]
    cases c.find? name with
    | none => rfl
    | some found => exact ih found.2

theorem nodes_firstLines (c : Contents) :
    c.firstLines.nodes = c.nodes.map (Prod.map id Node.firstLine) := by
  induction c with
  | empty => rfl
  | entry name node inside rest ihinside ihrest =>
    simp [firstLines, nodes, ihinside, ihrest]

theorem follows_firstLines {name : Path} {c : Contents} (h : c.Follows name) :
    c.firstLines.Follows name := by
  induction c with
  | empty => trivial
  | entry n node inside rest _ ih => exact ⟨h.1, ih h.2⟩

theorem sound_firstLines {c : Contents} (h : c.Sound) : c.firstLines.Sound := by
  induction c with
  | empty => trivial
  | entry name node inside rest ihinside ihrest =>
    obtain ⟨hname, hfollows, hempty, hinside, hrest⟩ := h
    refine ⟨hname, follows_firstLines hfollows, ?_, ihinside hinside, ihrest hrest⟩
    intro hnode
    have hother : node ≠ .directory := by
      rintro rfl
      exact hnode rfl
    rw [hempty hother]
    rfl

end Contents

namespace FileTree

variable {files files' : FileTree}

def firstLines (files : FileTree) : FileTree :=
  ⟨files.top.firstLines, Contents.sound_firstLines files.sound⟩

theorem node?_firstLines (files : FileTree) (place : Location) :
    files.firstLines.node? place = (files.node? place).map Node.firstLine :=
  Contents.node?_firstLines files.top place

theorem below_firstLines (files : FileTree) (place : Location) :
    files.firstLines.below place = (files.below place).map (Prod.map id Node.firstLine) := by
  unfold below firstLines
  rw [Contents.at?_firstLines]
  cases files.top.at? place with
  | none => rfl
  | some inside => exact inside.nodes_firstLines

theorem course_firstLines (files : FileTree) (purpose : Purpose) (here : Location)
    (steps : List Step) :
    files.firstLines.course purpose here steps = files.course purpose here steps := by
  induction steps generalizing here with
  | nil => rfl
  | cons step rest ih =>
    simp only [course, node?_firstLines, Step.refusal?_firstLine, Course.entering_firstLine, ih]

theorem route_firstLines (files : FileTree) (purpose : Purpose) (links : Nat) (here : Location)
    (steps : List Step) :
    files.firstLines.route purpose links here steps = files.route purpose links here steps := by
  induction links generalizing here steps with
  | zero => rw [route, route, course_firstLines]
  | succ links ih =>
    rw [route, route, course_firstLines]
    simp only [ih]

theorem target_firstLines (files : FileTree) (purpose : Purpose) (p : Path) :
    files.firstLines.target purpose p = files.target purpose p := by
  rw [target_eq_route, target_eq_route, route_firstLines]

theorem locate_firstLines (files : FileTree) (p : Path) :
    files.firstLines.locate p = files.locate p := by
  rw [locate, locate, target_firstLines]

theorem lookup_firstLines (files : FileTree) (p : Path) :
    files.firstLines.lookup p = (files.lookup p).map Node.firstLine := by
  unfold lookup
  rw [locate_firstLines]
  cases files.locate p with
  | error cause => rfl
  | ok place =>
    simp only [bind, Except.bind, node?_firstLines]
    cases files.node? place <;> rfl

theorem holds_firstLines (files : FileTree) (p : Path) :
    files.firstLines.holds p = files.holds p := by
  rw [holds, holds, lookup_firstLines]
  cases files.lookup p <;> rfl

theorem isFile_firstLines (files : FileTree) (p : Path) :
    files.firstLines.isFile p = files.isFile p := by
  rw [isFile, isFile, lookup_firstLines]
  rcases files.lookup p with _ | ⟨⟨⟩⟩ <;> rfl

theorem isDirectory_firstLines (files : FileTree) (p : Path) :
    files.firstLines.isDirectory p = files.isDirectory p := by
  rw [isDirectory, isDirectory, lookup_firstLines]
  rcases files.lookup p with _ | ⟨⟨⟩⟩ <;> rfl

theorem isExecutable_firstLines (files : FileTree) :
    files.firstLines.isExecutable = files.isExecutable := by
  funext p
  rw [isExecutable, isExecutable, lookup_firstLines]
  rcases files.lookup p with _ | ⟨⟨⟩⟩ <;> rfl

theorem isOwnDirectory_firstLines (files : FileTree) (p : Path) :
    files.firstLines.isOwnDirectory p = files.isOwnDirectory p := by
  rw [isOwnDirectory, isOwnDirectory, target_firstLines]
  simp only [node?_firstLines, Node.map_firstLine_eq_directory_iff]

theorem read_firstLines (files : FileTree) (p : Path) :
    files.firstLines.read p = (files.read p).map Directive.firstLine := by
  unfold read
  rw [lookup_firstLines]
  rcases files.lookup p with _ | ⟨⟨⟩⟩ <;> rfl

theorem directories_firstLines (files : FileTree) (root : Path) (r : Reach) :
    files.firstLines.directories root r = files.directories root r := by
  unfold directories
  rw [isOwnDirectory_firstLines, locate_firstLines]
  cases files.locate root with
  | error cause => rfl
  | ok place =>
    simp only [below_firstLines, List.filterMap_map]
    congr 2
    funext child
    rcases child with ⟨more, ⟨⟩⟩ <;> rfl

end FileTree

/-- Nodes that differ, if they are files, only in what is behind their first lines. -/
inductive Node.Alike : Node → Node → Prop where
  | file {f f' : File} (hmode : f.mode = f'.mode)
      (hline : Directive.firstLine f.bytes = Directive.firstLine f'.bytes) :
      Alike (.file f) (.file f')
  | directory : Alike .directory .directory
  | link (target : Path) : Alike (.link target) (.link target)

theorem Node.alike_iff {node node' : Node} :
    node.Alike node' ↔ node.firstLine = node'.firstLine := by
  constructor
  · intro h
    cases h with
    | file hmode hline => simp [firstLine, hmode, hline]
    | directory => rfl
    | link target => rfl
  · intro h
    cases node with
    | file f =>
      cases node' with
      | file f' =>
        obtain ⟨hline, hmode⟩ : Directive.firstLine f.bytes = Directive.firstLine f'.bytes ∧
            f.mode = f'.mode := by simpa [firstLine] using h
        exact .file hmode hline
      | directory => cases h
      | link target => cases h
    | directory =>
      cases node' with
      | file f' => cases h
      | directory => exact .directory
      | link target => cases h
    | link target =>
      cases node' with
      | file f' => cases h
      | directory => cases h
      | link target' =>
        obtain rfl : target = target' := by simpa [firstLine] using h
        exact .link target

/-- Trees with the same names, kinds, modes and links, whose files begin with the same lines. -/
def FileTree.Alike (files files' : FileTree) : Prop :=
  ∀ place, Option.Rel Node.Alike (files.node? place) (files'.node? place)

theorem FileTree.alike_iff {files files' : FileTree} :
    files.Alike files' ↔ files.firstLines = files'.firstLines := by
  have hnodes : ∀ found found' : Option Node, Option.Rel Node.Alike found found' ↔
      found.map Node.firstLine = found'.map Node.firstLine := by
    intro found found'
    cases found <;> cases found' <;> simp [Node.alike_iff]
  constructor
  · intro h
    apply ext_node?
    intro place
    rw [node?_firstLines, node?_firstLines]
    exact (hnodes _ _).mp (h place)
  · intro h place
    rw [hnodes, ← node?_firstLines, ← node?_firstLines, h]

theorem Directive.read_firstLines (files : FileTree) (p : Path) :
    Directive.read files.firstLines p = Directive.read files p := by
  rw [read, read, FileTree.read_firstLines]
  cases files.read p with
  | error cause => rfl
  | ok bytes => exact ofBytes_firstLine bytes

theorem Search.find?_firstLines (s : Search) (files : FileTree) (root : Path) (name : Text) :
    s.find? files.firstLines root name = s.find? files root name := by
  simp only [find?, inBinDirs?, inTree?, FileTree.isExecutable_firstLines,
    FileTree.directories_firstLines]

theorem Stage.resolve_firstLines (s : Stage) (files : FileTree) (word : Text) :
    s.resolve files.firstLines word = s.resolve files word := by
  simp only [resolve, FileTree.holds_firstLines, Search.find?_firstLines]

theorem Settings.stage_firstLines (s : Settings) (files : FileTree) (root : Path) (host : Host) :
    s.stage files.firstLines root host = s.stage files root host := by
  simp only [stage, FileTree.isDirectory_firstLines]

namespace RuntimeForm

theorem directiveOf_firstLines (s : Stage) (files : FileTree) (word : Text) :
    directiveOf s files.firstLines word = directiveOf s files word := by
  simp only [directiveOf, FileTree.isFile_firstLines, Directive.read_firstLines]

theorem ofDeclared_firstLines (s : Stage) (files : FileTree) (declared : Text) :
    ofDeclared s files.firstLines declared = ofDeclared s files declared :=
  ofDeclared_congr (s.resolve_firstLines files) (directiveOf_firstLines s files)

end RuntimeForm

namespace EntryPoint

theorem adapt_firstLines (e : EntryPoint) (s : Stage) (files : FileTree) :
    e.adapt s files.firstLines = e.adapt s files := by
  rw [adapt, adapt, RuntimeForm.ofDeclared_firstLines]

theorem conclude_firstLines (e : EntryPoint) (p : Policy) (s : Stage) (files : FileTree) :
    e.conclude p s files.firstLines = e.conclude p s files := by
  have hcheck : e.checkRunnable s files.firstLines = e.checkRunnable s files := by
    simp only [checkRunnable, FileTree.isExecutable_firstLines]
  rw [conclude, conclude, hcheck]

theorem settle_firstLines (e : EntryPoint) (p : Policy) (s : Stage) (files : FileTree) :
    e.settle p s files.firstLines = e.settle p s files := by
  simp only [settle, adapt_firstLines, conclude_firstLines]

variable {e : EntryPoint} {p : Policy} {s : Stage} {files files' : FileTree}

theorem settle_eq_of_alike (h : files.Alike files') : e.settle p s files = e.settle p s files' := by
  rw [← settle_firstLines, FileTree.alike_iff.mp h, settle_firstLines]

structure Call.Alike (c c' : Call) : Prop where
  policy : c.policy = c'.policy
  stage : c.stage = c'.stage
  files : c.files.Alike c'.files

def history : EntryPoint → List Call → List (Except Failure Text × EntryPoint)
  | _, [] => []
  | e, c :: calls => (e.answer c, e.after c) :: history (e.after c) calls

theorem settle_eq_of_callAlike {c c' : Call} (h : c.Alike c') :
    e.answer c = e.answer c' ∧ e.after c = e.after c' := by
  have hsettle : e.settle c.policy c.stage c.files = e.settle c'.policy c'.stage c'.files := by
    rw [h.policy, h.stage, settle_eq_of_alike h.files]
  rw [answer, answer, after, after, hsettle]
  exact ⟨rfl, rfl⟩

theorem history_eq_of_alike {calls calls' : List Call} (h : List.Forall₂ Call.Alike calls calls') :
    e.history calls = e.history calls' := by
  induction h generalizing e with
  | nil => rfl
  | cons hcall _ ih =>
    obtain ⟨hanswer, hafter⟩ := settle_eq_of_callAlike hcall
    rw [history, history, hanswer, hafter, ih]

/-- Alike trees make the same stages, bring declared commands into the same forms, and answer alike
however often entry points are settled over them. -/
theorem indistinguishable_of_alike :
    (∀ files files' : FileTree, files.Alike files' →
      (∀ (settings : Settings) (root : Path) (host : Host),
        settings.stage files root host = settings.stage files' root host) ∧
      ∀ (s : Stage) (declared : Text),
        RuntimeForm.ofDeclared s files declared = RuntimeForm.ofDeclared s files' declared) ∧
    ∀ (e : EntryPoint) (calls calls' : List Call), List.Forall₂ Call.Alike calls calls' →
      e.history calls = e.history calls' := by
  constructor
  · intro files files' halike
    have hsame := FileTree.alike_iff.mp halike
    constructor
    · intro settings root host
      rw [← settings.stage_firstLines, hsame, settings.stage_firstLines]
    · intro s declared
      rw [← RuntimeForm.ofDeclared_firstLines, hsame, RuntimeForm.ofDeclared_firstLines]
  · intro e calls calls' halike
    exact history_eq_of_alike halike

/-- A script whose first line breaks off within a character. -/
def brokenScript (more : List UInt8) : FileTree :=
  (FileTree.empty.addFile (Text.of "/stage/bin/run")
    ⟨Text.Utf8.encode (Text.of "#!/usr/bin/env widget ") ++ 0xc3 :: more, 0o755⟩).toOption.getD
      .empty

def brokenCall (p : Policy) (more : List UInt8) : Call :=
  ⟨p, RuntimeForm.scriptStage, brokenScript more⟩

theorem brokenScript_alike :
    (brokenScript []).Alike (brokenScript [0x0a, 0xa9]) ∧
      (declare (Text.of "app") (Text.of "serve") (Text.of "bin/run")).history
          [brokenCall ⟨false, true⟩ [], brokenCall ⟨true, true⟩ []] =
        (declare (Text.of "app") (Text.of "serve") (Text.of "bin/run")).history
          [brokenCall ⟨false, true⟩ [0x0a, 0xa9], brokenCall ⟨true, true⟩ [0x0a, 0xa9]] ∧
      RuntimeForm.ofDeclared RuntimeForm.scriptStage (brokenScript []) (Text.of "bin/run") =
        RuntimeForm.ofDeclared RuntimeForm.scriptStage (brokenScript [0x0a, 0xa9])
          (Text.of "bin/run") ∧
      (RuntimeForm.ofDeclared RuntimeForm.scriptStage (brokenScript []) (Text.of "bin/run")).map
          RuntimeForm.text? = .ok (some (Text.of "/opt/widget \uFFFD $SNAP/bin/run")) := by
  have halike : (brokenScript []).Alike (brokenScript [0x0a, 0xa9]) :=
    FileTree.alike_iff.mpr rfl
  have hcall : ∀ p, (brokenCall p []).Alike (brokenCall p [0x0a, 0xa9]) := fun _ =>
    ⟨rfl, rfl, halike⟩
  have hcalls : List.Forall₂ Call.Alike
      [brokenCall ⟨false, true⟩ [], brokenCall ⟨true, true⟩ []]
      [brokenCall ⟨false, true⟩ [0x0a, 0xa9], brokenCall ⟨true, true⟩ [0x0a, 0xa9]] :=
    .cons (hcall _) (.cons (hcall _) .nil)
  obtain ⟨htrees, hhistories⟩ := indistinguishable_of_alike
  exact ⟨halike, hhistories _ _ _ hcalls, (htrees _ _ halike).2 _ _, by rfl⟩

end EntryPoint
end EntryPoints
