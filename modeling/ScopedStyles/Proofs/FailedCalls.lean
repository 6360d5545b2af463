import ScopedStyles.Proofs.OncePerBuild

/-!
# Failed calls

A file is not processed because its path leads nowhere, because it holds no text, because the text
is no sheet, or because a stage fails, however far the stages before it have got with the sheet and
their messages (`outcome_eq_error_iff`). A call that fails leaves disk and records as they were
(`same_of_isFailure`), so calls that fail can be put into a run anywhere, or left out of it, and no
other call answers differently (`failedCalls_invisible`).
-/

namespace ScopedStyles

section Causes

namespace Pipeline

/-- Stages in a row work on what those before them have made of the sheet. -/
theorem run_append (path : Path) (after : Pipeline) : ∀ (before : Pipeline) (sheet : Css.Sheet),
    run path (before ++ after) sheet = do
      let (made, ms) ← run path before sheet
      let (last, more) ← run path after made
      return (last, ms ++ more)
  | [], sheet => by
    rw [List.nil_append]
    rcases h : run path after sheet with e | ⟨last, more⟩ <;>
      simp [run, h, bind, Except.bind, pure, Except.pure]
  | stage :: before, sheet => by
    rw [List.cons_append, run, run]
    rcases stage.run path sheet with e | ⟨next, ms⟩
    · rfl
    simp only [bind, Except.bind, run_append path after before next]
    rcases run path before next with e | ⟨made, ms'⟩
    · rfl
    simp only [pure, Except.pure]
    rcases run path after made with e | ⟨last, more⟩
    · rfl
    · simp only [List.append_assoc]

/-- A row of stages fails where one of them fails on what those before it have made of the sheet. -/
theorem run_eq_error_iff {path : Path} {f : Failure} {stages : Pipeline} {sheet : Css.Sheet} :
    run path stages sheet = .error f ↔
      ∃ before stage later made ms, stages = before ++ stage :: later ∧
        run path before sheet = .ok (made, ms) ∧ stage.run path made = .error f := by
  constructor
  · intro h
    induction stages generalizing sheet with
    | nil => simp [run] at h
    | cons stage rest ih =>
      rcases hs : stage.run path sheet with e | ⟨next, ms⟩
      · simp only [run, hs, bind, Except.bind] at h
        exact ⟨[], stage, rest, sheet, [], rfl, rfl, hs.trans h⟩
      rcases hr : run path rest next with e | ⟨last, more⟩
      · simp only [run, hs, hr, bind, Except.bind] at h
        obtain ⟨before, bad, later, made, ms', rfl, hb, hf⟩ := ih (hr.trans h)
        refine ⟨stage :: before, bad, later, made, ms ++ ms', rfl, ?_, hf⟩
        simp only [run, hs, hb, bind, Except.bind, pure, Except.pure]
      · simp [run, hs, hr, bind, Except.bind, pure, Except.pure] at h
  · rintro ⟨before, stage, later, made, ms, rfl, hb, hf⟩
    simp only [run_append, hb, run, hf, bind, Except.bind]

end Pipeline

namespace Build

/-- Why a file is not processed: its path leads nowhere, or, if its place is not recorded, it holds
no text, the text is no sheet, or one of the stages fails on what those before it have made. -/
inductive Unprocessed (b : Build) (path : Path) : Failure → Prop
  | unresolved {fault : Disk.Fault} : b.disk.locate path = .error fault →
    Unprocessed b path (.unresolved path fault)
  | unreadable {place : Place} {fault : Disk.Fault} : b.disk.locate path = .ok place →
    b.processor.record? place = none → b.disk.readAt place >>= Disk.asText = .error fault →
    Unprocessed b path (.unreadable (Disk.pathOf place) fault)
  | malformed {place : Place} {text : String} : b.disk.locate path = .ok place →
    b.processor.record? place = none → b.disk.readAt place >>= Disk.asText = .ok text →
    Css.Sheet.read (Pipeline.withoutMark text) = none →
    Unprocessed b path (.malformed (Disk.pathOf place))
  | stage {place : Place} {text : String} {sheet made : Css.Sheet} {before later : Pipeline}
      {stage : Stage} {ms : List Message} {failure : Failure} : b.disk.locate path = .ok place →
    b.processor.record? place = none → b.disk.readAt place >>= Disk.asText = .ok text →
    Css.Sheet.read (Pipeline.withoutMark text) = some sheet →
    b.processor.stages = before ++ stage :: later →
    Pipeline.run (Disk.pathOf place) before sheet = .ok (made, ms) →
    stage.run (Disk.pathOf place) made = .error failure → Unprocessed b path failure

theorem process_eq_error_iff {stages : Pipeline} {text : String} {path : Path} {f : Failure} :
    stages.process text path = .error f ↔
      Css.Sheet.read (Pipeline.withoutMark text) = none ∧ f = .malformed path ∨
      ∃ sheet, Css.Sheet.read (Pipeline.withoutMark text) = some sheet ∧
        Pipeline.run path stages sheet = .error f := by
  unfold Pipeline.process Pipeline.read
  rcases Css.Sheet.read (Pipeline.withoutMark text) with _ | sheet
  · simp [bind, Except.bind, eq_comm]
  · rcases h : Pipeline.run path stages sheet with e | ⟨made, ms⟩ <;>
      simp [bind, Except.bind, pure, Except.pure, h]

/-- The files that are not processed, and why. -/
theorem outcome_eq_error_iff {b : Build} {path : Path} {f : Failure} :
    b.outcome path = .error f ↔ b.Unprocessed path f := by
  constructor
  · intro h
    rw [outcome_eq] at h
    rcases hl : b.disk.locate path with fault | place
    · rw [hl] at h
      obtain rfl := Except.error.inj h
      exact .unresolved hl
    · rw [hl] at h
      simp only [answerAt] at h
      rcases hr : b.processor.record? place with _ | o
      · rw [hr] at h
        simp only [processNew_fst] at h
        rcases ht : b.disk.readAt place >>= Disk.asText with fault | text <;> rw [ht] at h
        · obtain rfl := Except.error.inj h
          exact .unreadable hl hr ht
        · rcases process_eq_error_iff.1 h with ⟨hm, rfl⟩ | ⟨sheet, hs, hrun⟩
          · exact .malformed hl hr ht hm
          · obtain ⟨before, stage, later, made, ms, he, hb, hf⟩ := Pipeline.run_eq_error_iff.1 hrun
            exact .stage hl hr ht hs he hb hf
      · simp [hr] at h
  · intro h
    rw [outcome_eq]
    cases h with
    | unresolved hl => rw [hl]
    | unreadable hl hr ht => simp only [hl, answerAt, hr, processNew_fst, ht]
    | malformed hl hr ht hm =>
      simp only [hl, answerAt, hr, processNew_fst, ht]
      exact process_eq_error_iff.2 (.inl ⟨hm, rfl⟩)
    | stage hl hr ht hs he hb hf =>
      simp only [hl, answerAt, hr, processNew_fst, ht]
      exact process_eq_error_iff.2
        (.inr ⟨_, hs, Pipeline.run_eq_error_iff.2 ⟨_, _, _, _, _, he, hb, hf⟩⟩)

/-- A file that is not processed leaves no trace but events. -/
theorem same_of_outcome_error {b : Build} {path : Path} {f : Failure}
    (h : b.outcome path = .error f) : (b.processFile path).2.Same b := by
  have hw : b.written? path = none := by
    unfold written?
    rw [h]
    rcases b.disk.locate path with fault | place <;> rfl
  have hs := same_processFile b path
  rwa [hw] at hs

end Build

end Causes

section Answers

/-- What a call answers. -/
inductive Answer where
  | classMap (result : Except Failure (Option ClassMap))
  | output (result : Except Failure Output)
  | module (result : Option Transformed)

namespace Answer

def isFailure : Answer → Bool
  | classMap (.error _) | output (.error _) | module none => true
  | _ => false

end Answer

namespace Call

def answer : Call → Build → Answer
  | classMap path, b => .classMap (b.classMap path).1
  | processFile path, b => .output (b.processFile path).1
  | processText text path, b => .output (b.processor.stages.process text path)
  | transform j, b => .module (j.result b)

/-- Answers depend on no events. -/
theorem answer_congr (c : Call) {b b' : Build} (h : b.Same b') : c.answer b = c.answer b' := by
  have ho := h.alike.outcome
  cases c with
  | classMap path =>
    have hp : (b.processFile path).1 = (b'.processFile path).1 := ho path
    simp only [answer, Build.classMap, hp]
  | processFile path => exact congrArg Answer.output (ho path)
  | processText text path => simp only [answer, h.processor]
  | transform j => exact congrArg Answer.module (j.result_congr ho)

theorem paths_congr (c : Call) {b b' : Build} (h : b.Same b') : c.paths b = c.paths b' := by
  cases c with
  | transform j => exact j.paths_congr h.alike.outcome
  | _ => rfl

theorem same_after_of_same (c : Call) {b b' : Build} (h : b.Same b') :
    (c.after b).Same (c.after b') := by
  refine (c.same_after b).trans (.trans ?_ (c.same_after b').symm)
  rw [c.paths_congr h]
  exact h.processAll _

/-- A call that fails leaves no trace but events. -/
theorem same_of_isFailure {c : Call} {b : Build} (h : (c.answer b).isFailure) :
    (c.after b).Same b := by
  have hfile : ∀ path, (∀ o, b.outcome path ≠ .ok o) → (b.processFile path).2.Same b := by
    intro path hne
    rcases ho : b.outcome path with f | o
    · exact Build.same_of_outcome_error ho
    · exact absurd ho (hne o)
  cases c with
  | classMap path =>
    refine hfile path fun o ho => ?_
    have hp : (b.processFile path).1 = .ok o := ho
    simp [answer, Build.classMap, hp, Except.map, Answer.isFailure] at h
  | processFile path =>
    refine hfile path fun o ho => ?_
    have hp : (b.processFile path).1 = .ok o := ho
    simp [answer, hp, Answer.isFailure] at h
  | processText text path => exact .refl b
  | transform j =>
    have hr : Transform.run j.source j.file j.mapped b = none := by
      rcases hr : Transform.run j.source j.file j.mapped b with _ | ⟨t, b'⟩
      · rfl
      · simp [answer, Job.result, hr, Answer.isFailure] at h
    simp only [after, Job.after, hr]
    exact .refl b

end Call

end Answers

section Runs

/-- A step of a run, or a call that is put in between and meant to fail. -/
inductive Step where
  | act (a : Act)
  | attempt (c : Call)

namespace Step

def toAct : Step → Act
  | act a => a
  | attempt c => .call c

def act? : Step → Option Act
  | act a => some a
  | attempt _ => none

end Step

namespace Build

/-- What the calls of a run answer. -/
def answers : Build → List Act → List Answer
  | _, [] => []
  | b, .call c :: acts => c.answer b :: answers (c.after b) acts
  | b, .outside disk :: acts => answers { b with disk := disk } acts

/-- What the calls of a run answer, those left out that are meant to fail. -/
def otherAnswers : Build → List Step → List Answer
  | _, [] => []
  | b, .act (.call c) :: steps => c.answer b :: otherAnswers (c.after b) steps
  | b, .act (.outside disk) :: steps => otherAnswers { b with disk := disk } steps
  | b, .attempt c :: steps => otherAnswers (c.after b) steps

/-- The calls that are meant to fail do so when it is their turn. -/
def AttemptsFail : Build → List Step → Prop
  | _, [] => True
  | b, .act a :: steps => AttemptsFail (a.after b) steps
  | b, .attempt c :: steps => (c.answer b).isFailure ∧ AttemptsFail (c.after b) steps

/-- Events make no difference to what comes of a run. -/
theorem Same.run : ∀ (acts : List Act) {b b' : Build}, b.Same b' →
    b.answers acts = b'.answers acts ∧ (b.run acts).Same (b'.run acts)
  | [], _, _, h => ⟨rfl, h⟩
  | .call c :: acts, b, b', h => by
    obtain ⟨ha, hs⟩ := Same.run acts (c.same_after_of_same h)
    exact ⟨by rw [answers, answers, c.answer_congr h, ha], hs⟩
  | .outside disk :: acts, b, b', h => by
    have hsame : Same { b with disk := disk } { b' with disk := disk } := ⟨rfl, h.processor⟩
    exact Same.run acts hsame

/-- Calls that fail when it is their turn change neither the other answers nor disk and records. -/
theorem run_attempts : ∀ (steps : List Step) {b : Build}, b.AttemptsFail steps →
    b.otherAnswers steps = b.answers (steps.filterMap Step.act?) ∧
      (b.run (steps.map Step.toAct)).Same (b.run (steps.filterMap Step.act?))
  | [], b, _ => ⟨rfl, .refl b⟩
  | .act (.call c) :: steps, b, h => by
    obtain ⟨ha, hs⟩ := run_attempts steps (b := c.after b) h
    exact ⟨congrArg (c.answer b :: ·) ha, hs⟩
  | .act (.outside disk) :: steps, b, h => run_attempts steps (b := { b with disk := disk }) h
  | .attempt c :: steps, b, h => by
    obtain ⟨hfail, hrest⟩ := h
    obtain ⟨ha, hs⟩ := run_attempts steps hrest
    -- without the call, the steps behind it start from the build as it was
    obtain ⟨ha', hs'⟩ := Same.run (steps.filterMap Step.act?) (Call.same_of_isFailure hfail)
    exact ⟨ha.trans ha', hs.trans hs'⟩

end Build

/-- Whatever the disk and the records: a file is not processed for the reasons given and no others,
and then disk and records stay as they are. So calls that fail can be put into a run anywhere, the
changes by others included, or be left out of it: the other calls answer the same, and disk and
records end up the same. -/
theorem failedCalls_invisible (b : Build) :
    (∀ path f, (b.processFile path).1 = .error f ↔ b.Unprocessed path f) ∧
      (∀ path f, b.Unprocessed path f → (b.processFile path).2.disk = b.disk ∧
        (b.processFile path).2.processor = b.processor) ∧
      ∀ steps : List Step, b.AttemptsFail steps →
        b.otherAnswers steps = b.answers (steps.filterMap Step.act?) ∧
          (b.run (steps.map Step.toAct)).disk = (b.run (steps.filterMap Step.act?)).disk ∧
          (b.run (steps.map Step.toAct)).processor =
            (b.run (steps.filterMap Step.act?)).processor := by
  refine ⟨fun path f => Build.outcome_eq_error_iff, fun path f h => ?_, fun steps h => ?_⟩
  · have hs := Build.same_of_outcome_error (Build.outcome_eq_error_iff.2 h)
    exact ⟨hs.disk, hs.processor⟩
  · obtain ⟨ha, hs⟩ := Build.run_attempts steps h
    exact ⟨ha, hs.disk, hs.processor⟩

/-- A run with calls that fail for each of the reasons. -/
theorem failedCalls_each_reason :
    let picky : Stage := ⟨"picky", fun path sheet =>
      if path.text = "/app/c.sss" then .error (.stage "picky" "no") else .ok (sheet, [])⟩
    let disk := (((((Disk.empty ["app"]).put ["app"] .directory).put ["app", "a.sss"]
      (.file (.text ".x \x7b color: red \x7d"))).put ["app", "b.sss"]
      (.file (.text ".x \x7b"))).put ["app", "c.sss"]
      (.file (.text ".y \x7b color: red \x7d"))).put ["app", "d.sss"] .directory
    let b : Build := .start disk (.fresh [.scopeClasses ⟨"[local]_x"⟩, picky])
    let steps : List Step := [.attempt (.processFile ⟨"./missing.sss"⟩),
      .act (.call (.processFile ⟨"a.sss"⟩)), .attempt (.processFile ⟨"b.sss"⟩),
      .attempt (.processFile ⟨"./c.sss"⟩), .attempt (.classMap ⟨"d.sss"⟩),
      .act (.call (.classMap ⟨"./a.sss"⟩))]
    b.Unprocessed ⟨"./missing.sss"⟩ (.unresolved ⟨"./missing.sss"⟩ .notFound) ∧
      (b.processFile ⟨"./missing.sss"⟩).2.disk = b.disk ∧ b.AttemptsFail steps ∧
      b.otherAnswers steps = b.answers [.call (.processFile ⟨"a.sss"⟩),
        .call (.classMap ⟨"./a.sss"⟩)] := by
  intro picky disk b steps
  have hmissing : b.Unprocessed ⟨"./missing.sss"⟩ (.unresolved ⟨"./missing.sss"⟩ .notFound) :=
    .unresolved (by decide +kernel)
  have hfail : b.AttemptsFail steps :=
    ⟨by decide +kernel, by decide +kernel, by decide +kernel, by decide +kernel, trivial⟩
  obtain ⟨-, hsame, hrun⟩ := failedCalls_invisible b
  exact ⟨hmissing, (hsame _ _ hmissing).1, hfail, (hrun steps hfail).1⟩

end Runs

end ScopedStyles
