import EntryPoints.Proofs.Settling

/-!
Entry points that are settled again and again, each time under another policy, in another stage and
over other files. `Consistent` is what every call keeps; with it, whatever was called before, a
wrapped entry point stays as it is and tells of its wrapper once (`lawful_through`).
-/
namespace EntryPoints.EntryPoint

structure Call where
  policy : Policy
  stage : Stage
  files : FileTree

def answer (e : EntryPoint) (c : Call) : Except Failure Text :=
  (e.settle c.policy c.stage c.files).outcome

def after (e : EntryPoint) (c : Call) : EntryPoint := (e.settle c.policy c.stage c.files).entry

def through (e : EntryPoint) (calls : List Call) : EntryPoint := calls.foldl after e

def wrapperNotices (e : EntryPoint) : List Notice := e.notices.filter Notice.isWrapperGenerated

/-- A wrapped entry point goes by the name of its wrapper and has told of it once; one that is not
wrapped has told of no wrapper. -/
structure Consistent (e : EntryPoint) : Prop where
  wrapped : ∀ w, e.wrapped? = some w → e.command = e.wrapperName ∧ needsWrapper w = true ∧
    e.wrapperNotices = [.wrapperGenerated e.app w]
  unwrapped : e.wrapped? = none → e.wrapperNotices = []

/-- What a call keeps of an entry point: its names, and the notices so far. -/
structure Continues (e e' : EntryPoint) : Prop where
  app : e'.app = e.app
  name : e'.name = e.name
  notices : e.notices <+: e'.notices

theorem Continues.refl (e : EntryPoint) : e.Continues e := ⟨rfl, rfl, List.prefix_rfl⟩

theorem Continues.trans {a b c : EntryPoint} (hab : a.Continues b) (hbc : b.Continues c) :
    a.Continues c :=
  ⟨hbc.app.trans hab.app, hbc.name.trans hab.name, hab.notices.trans hbc.notices⟩

variable {e : EntryPoint} {p : Policy} {s : Stage} {files : FileTree}

theorem continues_inForm (e : EntryPoint) (form : RuntimeForm) : e.Continues (e.inForm form) :=
  ⟨rfl, rfl, List.prefix_append _ _⟩

theorem continues_wrap (e : EntryPoint) : e.Continues e.wrap :=
  ⟨rfl, rfl, List.prefix_append _ _⟩

theorem wrapped?_inForm (e : EntryPoint) (form : RuntimeForm) :
    (e.inForm form).wrapped? = e.wrapped? := rfl

theorem consistent_declare (app name command : Text) : (declare app name command).Consistent where
  wrapped := by
    intro w hw
    cases hw
  unwrapped := fun _ => rfl

theorem consistent_inForm (h : e.Consistent) (hfresh : e.wrapped? = none) {form : RuntimeForm}
    (hform : RuntimeForm.ofDeclared s files e.command = .ok form) :
    (e.inForm form).Consistent where
  wrapped := by
    intro w hw
    rw [wrapped?_inForm, hfresh] at hw
    cases hw
  unwrapped := by
    intro _
    have hnone : form.notices.filter Notice.isWrapperGenerated = [] :=
      List.filter_eq_nil_iff.mpr fun n hn => by
        simp [RuntimeForm.isWrapperGenerated_of_ofDeclared hform hn]
    have hold : e.notices.filter Notice.isWrapperGenerated = [] := h.unwrapped hfresh
    simp [wrapperNotices, inForm, hnone, hold]

/-- A text that needs a wrapper is not invocable, also if it is only absolute, so wrapping it is
always told. -/
theorem consistent_wrap (h : e.Consistent) (hfresh : e.wrapped? = none)
    (hneeds : needsWrapper e.command = true) : e.wrap.Consistent where
  wrapped := by
    intro w hw
    obtain rfl : e.command = w := Option.some.inj hw
    have hinvocable : isInvocable e.command = false := by
      simpa [needsWrapper_eq_not_isInvocable] using hneeds
    have hold : e.notices.filter Notice.isWrapperGenerated = [] := h.unwrapped hfresh
    refine ⟨rfl, hneeds, ?_⟩
    simp [wrapperNotices, wrap, hinvocable, hold, Notice.isWrapperGenerated]
  unwrapped := by
    intro hw
    cases hw

theorem concluding_step {outcome : Except Failure Text} {settled : EntryPoint}
    (h : Concluding e p s files outcome settled) (hfresh : e.wrapped? = none)
    (hconsistent : e.Consistent) :
    settled.Consistent ∧ e.Continues settled ∧
      (outcome.isOk = true → settled.requiresWrapper = settled.wrapped?.isSome) := by
  cases h with
  | wrapped hneeds _ =>
    exact ⟨consistent_wrap hconsistent hfresh hneeds, continues_wrap e, fun _ => hneeds⟩
  | refused _ _ =>
    refine ⟨hconsistent, .refl e, ?_⟩
    intro hok
    cases hok
  | direct hneeds _ =>
    refine ⟨hconsistent, .refl e, fun _ => ?_⟩
    simpa [requiresWrapper, hfresh] using hneeds
  | stuck _ _ =>
    refine ⟨hconsistent, .refl e, ?_⟩
    intro hok
    cases hok

theorem settling_step {outcome : Except Failure Text} {settled : EntryPoint}
    (h : Settling e p s files outcome settled) (hconsistent : e.Consistent) :
    settled.Consistent ∧ e.Continues settled ∧
      (outcome.isOk = true → settled.requiresWrapper = settled.wrapped?.isSome) := by
  cases h with
  | kept hwrapped =>
    refine ⟨hconsistent, .refl e, fun _ => ?_⟩
    simpa [requiresWrapper, hwrapped] using (hconsistent.wrapped _ hwrapped).2.1
  | unformed _ _ _ =>
    refine ⟨hconsistent, .refl e, ?_⟩
    intro hok
    cases hok
  | missing hfresh _ hform _ =>
    refine ⟨consistent_inForm hconsistent hfresh hform, continues_inForm e _, ?_⟩
    intro hok
    cases hok
  | adapted hfresh _ hform _ hconcluding =>
    obtain ⟨hsettled, hcontinues, hdecides⟩ :=
      concluding_step hconcluding hfresh (consistent_inForm hconsistent hfresh hform)
    exact ⟨hsettled, (continues_inForm e _).trans hcontinues, hdecides⟩
  | verbatim hfresh _ hconcluding => exact concluding_step hconcluding hfresh hconsistent

theorem settling_of_answer {c : Call} {outcome : Except Failure Text} (h : e.answer c = outcome) :
    Settling e c.policy c.stage c.files outcome (e.after c) :=
  h ▸ settling_settle e c.policy c.stage c.files

theorem consistent_after (h : e.Consistent) (c : Call) : (e.after c).Consistent :=
  (settling_step (settling_settle e c.policy c.stage c.files) h).1

theorem continues_after (h : e.Consistent) (c : Call) : e.Continues (e.after c) :=
  (settling_step (settling_settle e c.policy c.stage c.files) h).2.1

theorem requiresWrapper_after (h : e.Consistent) {c : Call} {text : Text}
    (hanswer : e.answer c = .ok text) :
    (e.after c).requiresWrapper = (e.after c).wrapped?.isSome := by
  have hok : (e.answer c).isOk = true := by
    rw [hanswer]
    rfl
  exact (settling_step (settling_settle e c.policy c.stage c.files) h).2.2 hok

theorem through_consistent (h : e.Consistent) (calls : List Call) :
    (e.through calls).Consistent ∧ e.Continues (e.through calls) := by
  induction calls generalizing e with
  | nil => exact ⟨h, .refl e⟩
  | cons c calls ih =>
    obtain ⟨hconsistent, hcontinues⟩ := ih (consistent_after h c)
    exact ⟨hconsistent, (continues_after h c).trans hcontinues⟩

theorem settle_of_wrapped (c : Call) (h : e.wrapped?.isSome) :
    e.answer c = .ok e.command ∧ e.after c = e := by
  simp [answer, after, settle, h]

theorem through_of_wrapped (calls : List Call) (h : e.wrapped?.isSome) : e.through calls = e := by
  induction calls with
  | nil => rfl
  | cons c calls ih => rw [through, List.foldl_cons, (settle_of_wrapped c h).2]; exact ih

/-- What holds of an entry point `e` that was declared as `d` and settled any number of times. -/
structure Lawful (d e : EntryPoint) : Prop where
  app : e.app = d.app
  name : e.name = d.name
  /-- Once wrapped it has the name of the wrapper, and one notice tells of it. -/
  wrapped : ∀ w, e.wrapped? = some w → e.command = d.wrapperName ∧ needsWrapper w = true ∧
    e.wrapperNotices = [.wrapperGenerated d.app w]
  /-- From then on every call answers with that name and changes nothing. -/
  kept : e.wrapped?.isSome → ∀ calls c,
    (e.through calls).answer c = .ok d.wrapperName ∧ (e.through calls).after c = e
  unwrapped : e.wrapped? = none → e.wrapperNotices = []
  notices : ∀ calls, e.notices <+: (e.through calls).notices
  /-- After a call that succeeds, the command needs a wrapper exactly if it has one. -/
  decided : ∀ c text, e.answer c = .ok text →
    (e.after c).requiresWrapper = (e.after c).wrapped?.isSome

theorem lawful_through (app name command : Text) (calls : List Call) :
    Lawful (declare app name command) ((declare app name command).through calls) := by
  obtain ⟨hconsistent, hcontinues⟩ := through_consistent (consistent_declare app name command) calls
  have hname : ((declare app name command).through calls).wrapperName =
      (declare app name command).wrapperName := by
    rw [wrapperName, hcontinues.app, hcontinues.name, wrapperName]
  refine ⟨hcontinues.app, hcontinues.name, ?_, ?_, hconsistent.unwrapped, ?_, ?_⟩
  · intro w hw
    rw [← hname, ← hcontinues.app]
    exact hconsistent.wrapped w hw
  · intro hwrapped more c
    obtain ⟨w, hw⟩ := Option.isSome_iff_exists.mp hwrapped
    rw [through_of_wrapped more hwrapped, ← hname, ← (hconsistent.wrapped w hw).1]
    exact settle_of_wrapped c hwrapped
  · exact fun more => (through_consistent hconsistent more).2.notices
  · exact fun c text hanswer => requiresWrapper_after hconsistent hanswer

end EntryPoints.EntryPoint
