import BlockCompiler.Proofs.Collector
import BlockCompiler.Proofs.Generation.Depth

/-!
# The course of a run

`Job.steps` lists all requests that playing a script comes to, those of the blocks
inside each other included, each with the run that it is made on.  The list is worked
out along with the run, at the same depth bound.

`Job.Course` says the same without a bound: a script asks for a block, the steps of
that block's own script follow, and the script goes on with the code.  Every script that
has a result takes such a course (`course_of_play?`), so what is to be shown of the steps
is shown by induction on courses.  What the diagnostics and the log hold in the end
can be read off the steps (`Course.diagnostics`, `Course.notices`), and so can the
diagnostics at each step (`Course.diagnostics_at`).
-/

namespace BlockCompiler

/-- A request, and the run that it is made on. -/
structure Step where
  request : Request
  run : Run

namespace Step

/-- The block that the step asks for. -/
def block? (step : Step) : Option NodeId :=
  match step.request with
  | .generate i => some i
  | _ => none

/-- The diagnostic that the step reports. -/
def report? (step : Step) : Option Diagnostic :=
  match step.request with
  | .report d => some d
  | _ => none

/-- What the step writes to the log. -/
def written (step : Step) : List Notice :=
  match step.request with
  | .notice n => [n]
  | .setupBeside symbol text rival warning =>
    if !step.run.setups.contains symbol && (step.run.setup symbol text).setups.contains rival then
      [warning]
    else []
  | .enterProgram key => if step.run.entryPoints = 0 then [] else [.furtherEntryPoint key]
  | _ => []

/-- The blocks that the steps ask for, in order. -/
def blocks (steps : List Step) : List NodeId :=
  steps.filterMap block?

/-- The diagnostics that the steps report, in order, whether or not they were reported before. -/
def reports (steps : List Step) : List Diagnostic :=
  steps.filterMap report?

/-- What the steps write to the log, in order. -/
def notices (steps : List Step) : List Notice :=
  steps.flatMap written

@[simp] theorem blocks_nil : blocks [] = [] := rfl

@[simp] theorem reports_nil : reports [] = [] := rfl

@[simp] theorem notices_nil : notices [] = [] := rfl

@[simp] theorem blocks_append (steps steps' : List Step) :
    blocks (steps ++ steps') = blocks steps ++ blocks steps' :=
  List.filterMap_append

@[simp] theorem reports_append (steps steps' : List Step) :
    reports (steps ++ steps') = reports steps ++ reports steps' :=
  List.filterMap_append

@[simp] theorem notices_append (steps steps' : List Step) :
    notices (steps ++ steps') = notices steps ++ notices steps' :=
  List.flatMap_append

theorem blocks_cons (step : Step) (steps : List Step) :
    blocks (step :: steps) = step.block?.toList ++ blocks steps := by
  cases h : step.block? <;> simp [blocks, h]

/-- The blocks of a course are those that its steps ask for. -/
theorem mem_blocks {steps : List Step} {i : NodeId} :
    i ∈ blocks steps ↔ ∃ step ∈ steps, step.request = .generate i := by
  simp only [blocks, List.mem_filterMap]
  refine exists_congr fun step => and_congr_right fun _ => ?_
  cases hr : step.request <;> simp [block?, hr]

theorem reports_cons (step : Step) (steps : List Step) :
    reports (step :: steps) = step.report?.toList ++ reports steps := by
  cases h : step.report? <;> simp [reports, h]

@[simp] theorem reports_generate (i : NodeId) (s : Run) (steps : List Step) :
    reports (⟨.generate i, s⟩ :: steps) = reports steps :=
  rfl

@[simp] theorem notices_generate (i : NodeId) (s : Run) (steps : List Step) :
    notices (⟨.generate i, s⟩ :: steps) = notices steps :=
  rfl

theorem notices_cons (step : Step) (steps : List Step) :
    notices (step :: steps) = step.written ++ notices steps :=
  List.flatMap_cons

end Step

/-! ## The steps of a script -/

/-- The steps inside of a request: those of the block that is asked for. -/
def Request.stepsInside (inner : NodeId → Run → List Step) : Request → Run → List Step
  | generate i, s => inner i s
  | _, _ => []

/-- The steps of a script played on a run, given the code of other blocks and the steps it takes to
make that code. -/
def Script.steps {α : Type} (code : NodeId → Run → Option (Code × Run))
    (inner : NodeId → Run → List Step) : Script α → Run → List Step
  | done _, _ => []
  | ask r resume, s =>
    ⟨r, s⟩ :: (r.stepsInside inner s ++ (r.answer code s).elim [] fun (reply, after) =>
      (resume reply).steps code inner after)

/-- The steps of generating a block, to the depth that `emit` has for the same `fuel`. -/
def emitSteps (scripts : NodeId → Script Code) : (fuel : Nat) → NodeId → Run → List Step
  | 0, _, _ => []
  | fuel + 1, block, s => (scripts block).steps (emit scripts fuel) (emitSteps scripts fuel) s

/-- The steps of playing a script. -/
def Job.steps {α : Type} (j : Job) (script : Script α) (s : Run) : List Step :=
  script.steps (emit j.blockScript j.depthBound) (emitSteps j.blockScript j.depthBound) s

/-- The steps of a compilation. -/
def Job.compilationSteps (j : Job) (options : Options) : List Step :=
  j.steps (j.sections options) {}

namespace Job

variable {α β γ : Type} {j : Job}

/-- On the run `s` the script takes the steps, and comes to the result `a` and the run `s'`.  Apart
from blocks, requests are answered by the run alone. -/
inductive Course (j : Job) : {α : Type} → Script α → Run → List Step → α → Run → Prop
  | done {α : Type} (a : α) (s : Run) : Course j (.done a) s [] a s
  | block {α : Type} {i : NodeId} {resume : Code → Script α} {s s₁ s' : Run} {c : Code} {a : α}
      {inside rest : List Step} (hinside : Course j (j.blockScript i) s inside c s₁)
      (hrest : Course j (resume c) s₁ rest a s') :
      Course j (.ask (.generate i) resume) s (⟨.generate i, s⟩ :: (inside ++ rest)) a s'
  | plain {α : Type} {r : Request} {resume : r.Reply → Script α} {s s₁ s' : Run} {reply : r.Reply}
      {a : α} {rest : List Step} (hanswer : r.answer (fun _ _ => none) s = some (reply, s₁))
      (hrest : Course j (resume reply) s₁ rest a s') :
      Course j (.ask r resume) s (⟨r, s⟩ :: rest) a s'

/-- A script that has a result takes the steps that are listed for it, given that the blocks do. -/
theorem course_of_run {code : NodeId → Run → Option (Code × Run)}
    {inner : NodeId → Run → List Step}
    (hcode : ∀ i s c s', code i s = some (c, s') →
      j.Course (j.blockScript i) s (inner i s) c s')
    {script : Script α} {s s' : Run} {a : α} (h : script.run code s = some (a, s')) :
    j.Course script s (script.steps code inner s) a s' := by
  induction script generalizing s with
  | done b =>
    cases h
    exact .done _ _
  | ask r resume ih =>
    obtain ⟨⟨reply, after⟩, hreply, hrest⟩ := Option.bind_eq_some_iff.mp h
    have hsteps : (Script.ask r resume).steps code inner s =
        ⟨r, s⟩ :: (r.stepsInside inner s ++ (resume reply).steps code inner after) := by
      rw [Script.steps, hreply]
      rfl
    rw [hsteps]
    cases r with
    | generate i => exact .block (hcode i s reply after hreply) (ih reply hrest)
    | _ => exact .plain hreply (ih reply hrest)

/-- Generating a block takes the course of its script. -/
theorem course_of_emit {fuel : Nat} {i : NodeId} {s s' : Run} {c : Code}
    (h : emit j.blockScript fuel i s = some (c, s')) :
    j.Course (j.blockScript i) s (emitSteps j.blockScript fuel i s) c s' := by
  induction fuel generalizing i s c s' with
  | zero => cases h
  | succ fuel ih => exact course_of_run (fun i s c s' => ih) h

/-- **Every result has a course.** -/
theorem course_of_play? {script : Script α} {s s' : Run} {a : α}
    (h : j.play? script s = some (a, s')) : j.Course script s (j.steps script s) a s' :=
  course_of_run (fun _ _ _ _ => course_of_emit) h

namespace Course

/-! ## Scripts in turn -/

theorem of_pure {a b : α} {s s' : Run} {steps : List Step}
    (h : j.Course (pure a) s steps b s') : steps = [] ∧ b = a ∧ s' = s := by
  cases h
  exact ⟨rfl, rfl, rfl⟩

/-- The course of scripts one after the other is made of two. -/
theorem of_bind {script : Script α} {f : α → Script β} {s s' : Run} {b : β} {steps : List Step}
    (h : j.Course (script >>= f) s steps b s') :
    ∃ first a s₁ second, j.Course script s first a s₁ ∧ j.Course (f a) s₁ second b s' ∧
      steps = first ++ second := by
  induction script generalizing s steps with
  | done a => exact ⟨[], a, s, steps, .done a s, h, rfl⟩
  | ask r resume ih =>
    rw [Script.ask_bind] at h
    cases h with
    | block hinside hrest =>
      obtain ⟨first, a, s₁, second, hfirst, hsecond, rfl⟩ := ih _ hrest
      exact ⟨_, a, s₁, second, .block hinside hfirst, hsecond, by simp⟩
    | plain hanswer hrest =>
      obtain ⟨first, a, s₁, second, hfirst, hsecond, rfl⟩ := ih _ hrest
      exact ⟨_, a, s₁, second, .plain hanswer hfirst, hsecond, by simp⟩

theorem of_result {script : Script α} {f : α → β} {s s' : Run} {b : β} {steps : List Step}
    (h : j.Course (do return f (← script)) s steps b s') :
    ∃ a, j.Course script s steps a s' ∧ b = f a := by
  obtain ⟨first, a, s₁, second, hfirst, hsecond, rfl⟩ := of_bind h
  obtain ⟨rfl, rfl, rfl⟩ := of_pure hsecond
  rw [List.append_nil]
  exact ⟨a, hfirst, rfl⟩

/-- What holds of the steps of each script of a list, and of lists of steps put together, holds of
the steps of all these scripts in turn. -/
theorem mapM_induction {f : γ → Script β} {xs : List γ} {motive : List γ → List Step → Prop}
    (nil : motive [] [])
    (cons : ∀ x rest first second, (∃ s y s', j.Course (f x) s first y s') → motive rest second →
      motive (x :: rest) (first ++ second))
    {s s' : Run} {ys : List β} {steps : List Step} (h : j.Course (xs.mapM f) s steps ys s') :
    motive xs steps := by
  induction xs generalizing s ys steps with
  | nil =>
    obtain ⟨rfl, -, -⟩ := of_pure h
    exact nil
  | cons x rest ih =>
    rw [List.mapM_cons] at h
    obtain ⟨first, y, s₁, second, hfirst, hsecond, rfl⟩ := of_bind h
    obtain ⟨zs, hrest, -⟩ := of_result hsecond
    exact cons x rest first second ⟨s, y, s₁, hfirst⟩ (ih hrest)

/-! ## What a run holds in the end -/

end Course

end Job

namespace Request

/-- Apart from blocks, only reports change the diagnostics. -/
theorem diagnostics_of_answer {r : Request} {s s' : Run} {reply : r.Reply}
    (h : r.answer (fun _ _ => none) s = some (reply, s')) :
    s'.diagnostics = s.diagnostics.extend (Step.report? ⟨r, s⟩).toList := by
  cases r with
  | generate i => cases h
  | report d =>
    cases h
    rfl
  | setupBeside | enterProgram =>
    cases h
    simp [DiagnosticLog.extend, Step.report?]
  | declare | setup | notice | setupLines | beginPass =>
    cases h
    rfl

/-- A request writes to the log what its step tells. -/
theorem notices_of_answer {r : Request} {s s' : Run} {reply : r.Reply}
    (h : r.answer (fun _ _ => none) s = some (reply, s')) :
    s'.notices = s.notices ++ Step.written ⟨r, s⟩ := by
  cases r with
  | generate i => cases h
  | setupBeside symbol text rival warning =>
    cases h
    simp only [Run.setupBeside, Step.written]
    split
    · rfl
    · exact (List.append_nil _).symm
  | enterProgram key =>
    cases h
    simp only [Run.enterProgram, Step.written]
    split
    · exact (List.append_nil _).symm
    · rfl
  | notice n =>
    cases h
    rfl
  | declare | setup | report | setupLines | beginPass =>
    cases h
    exact (List.append_nil _).symm

/-- A request that is answered without generating anything is for no block. -/
theorem block?_of_answer {r : Request} {s s' : Run} {reply : r.Reply}
    (h : r.answer (fun _ _ => none) s = some (reply, s')) : Step.block? ⟨r, s⟩ = none := by
  cases r with
  | generate i => cases h
  | _ => rfl

end Request

namespace DiagnosticLog

theorem extend_append (log : DiagnosticLog) (ds ds' : List Diagnostic) :
    log.extend (ds ++ ds') = (log.extend ds).extend ds' :=
  List.foldl_append

/-- The entries with a reason. -/
def withReason (log : DiagnosticLog) (reason : Reason) : List Diagnostic :=
  log.entries.filter (·.reason == reason)

/-- In a log that is in step, a diagnostic was reported iff its block is one of those with its
reason. -/
theorem InStep.reports_iff_withReason {log : DiagnosticLog} (h : log.InStep) {d : Diagnostic} :
    log.reports d = true ↔ d.node ∈ (log.withReason d.reason).map (·.node) := by
  simp only [h.reports_iff, withReason, List.mem_map, List.mem_filter, beq_iff_eq,
    Diagnostic.subject, Prod.mk.injEq, and_assoc]

theorem withReason_push_of_ne {reason : Reason} {d : Diagnostic} (h : d.reason ≠ reason)
    (log : DiagnosticLog) : (log.push d).withReason reason = log.withReason reason := by
  rw [push]
  split
  · rfl
  · simp [withReason, h]

/-- A diagnostic that was not reported before comes last among those of its reason. -/
theorem withReason_push {log : DiagnosticLog} {d : Diagnostic} (h : log.reports d = false) :
    (log.push d).withReason d.reason = log.withReason d.reason ++ [d] := by
  simp [push, h, withReason]

/-- **Reports about different blocks all stay**, in their order. -/
theorem withReason_extend {reason : Reason} {log : DiagnosticLog} {ds : List Diagnostic}
    (hlog : log.InStep) (h : ((log.withReason reason ++ ds.filter (·.reason == reason)).map (·.node)).Nodup) :
    (log.extend ds).withReason reason = log.withReason reason ++ ds.filter (·.reason == reason) := by
  induction ds generalizing log with
  | nil => exact (List.append_nil _).symm
  | cons d rest ih =>
    have hextend : log.extend (d :: rest) = (log.push d).extend rest := rfl
    rw [hextend]
    by_cases hd : d.reason = reason
    · subst hd
      rw [List.filter_cons_of_pos (by simp)] at h ⊢
      have hnew : log.reports d = false := by
        rw [← Bool.not_eq_true, hlog.reports_iff_withReason]
        intro hmem
        rw [List.map_append] at h
        exact (List.disjoint_of_nodup_append h) hmem (by simp)
      rw [ih (hlog.push d), withReason_push hnew]
      · simp
      · rw [withReason_push hnew]
        simpa using h
    · rw [List.filter_cons_of_neg (by simpa using hd)] at h ⊢
      rw [ih (hlog.push d), withReason_push_of_ne hd]
      rwa [withReason_push_of_ne hd]

end DiagnosticLog

namespace Job.Course

variable {α : Type} {j : Job} {script : Script α} {s s' : Run} {steps : List Step} {a : α}

/-- The diagnostics in the end are those before, extended by what the steps report. -/
theorem diagnostics (h : j.Course script s steps a s') :
    s'.diagnostics = s.diagnostics.extend (Step.reports steps) := by
  induction h with
  | done => rfl
  | block _ _ ihinside ihrest =>
    rw [ihrest, ihinside, Step.reports_generate, Step.reports_append, DiagnosticLog.extend_append]
  | plain hanswer _ ih =>
    rw [ih, Request.diagnostics_of_answer hanswer, Step.reports_cons,
      ← DiagnosticLog.extend_append]

/-- The log in the end is the one before, followed by what the steps write. -/
theorem notices (h : j.Course script s steps a s') :
    s'.notices = s.notices ++ Step.notices steps := by
  induction h with
  | done => exact (List.append_nil _).symm
  | block _ _ ihinside ihrest =>
    rw [ihrest, ihinside, Step.notices_generate, Step.notices_append, List.append_assoc]
  | plain hanswer _ ih =>
    rw [ih, Request.notices_of_answer hanswer, Step.notices_cons, List.append_assoc]

/-- At each step the diagnostics are those before, extended by the reports up to there. -/
theorem diagnostics_at (h : j.Course script s steps a s') {before after : List Step} {step : Step}
    (hsplit : steps = before ++ step :: after) :
    step.run.diagnostics = s.diagnostics.extend (Step.reports before) := by
  induction h generalizing before after with
  | done => simp at hsplit
  | block hinside _ ihinside ihrest =>
    cases before with
    | nil =>
      cases hsplit
      rfl
    | cons first before =>
      obtain ⟨rfl, htail⟩ := List.cons.inj hsplit
      rw [Step.reports_generate]
      -- The step is one of the block's own, or comes after them.
      rcases List.append_eq_append_iff.mp htail with ⟨more, rfl, hrest⟩ | ⟨more, rfl, hrest⟩
      · rw [ihrest hrest, hinside.diagnostics, Step.reports_append, DiagnosticLog.extend_append]
      · cases more with
        | nil =>
          rw [List.append_nil] at hinside
          rw [← hinside.diagnostics]
          exact @ihrest [] after hrest.symm
        | cons other more =>
          obtain ⟨rfl, -⟩ := List.cons.inj hrest
          exact ihinside rfl
  | plain hanswer _ ih =>
    cases before with
    | nil =>
      cases hsplit
      rfl
    | cons first before =>
      obtain ⟨rfl, htail⟩ := List.cons.inj hsplit
      rw [ih htail, Request.diagnostics_of_answer hanswer, Step.reports_cons,
        ← DiagnosticLog.extend_append]

/-- If the steps report different blocks for a reason, each of these reports finds its block not yet
reported for it, and the diagnostics hold all of them. -/
theorem reports_fresh (h : j.Course script {} steps a s') {reason : Reason}
    (hdistinct : (((Step.reports steps).filter (·.reason == reason)).map (·.node)).Nodup) :
    s'.diagnostics.withReason reason = (Step.reports steps).filter (·.reason == reason) ∧
      ∀ step ∈ steps, ∀ d, step.request = .report d → d.reason = reason →
        step.run.diagnostics.reports d = false := by
  constructor
  · rw [h.diagnostics, DiagnosticLog.withReason_extend DiagnosticLog.inStep_empty
      (by simpa [DiagnosticLog.withReason])]
    rfl
  · rintro step hstep d hd rfl
    obtain ⟨before, after, hsplit⟩ := List.append_of_mem hstep
    -- The report stands behind those that the diagnostics hold by then.
    have hreports : (Step.reports steps).filter (·.reason == d.reason) =
        (Step.reports before).filter (·.reason == d.reason) ++
          d :: (Step.reports after).filter (·.reason == d.reason) := by
      rw [hsplit, Step.reports_append, Step.reports_cons, Step.report?, hd]
      simp
    rw [hreports, List.map_append] at hdistinct
    have hlog : step.run.diagnostics.InStep := by
      rw [h.diagnostics_at hsplit]
      exact DiagnosticLog.inStep_empty.extend _
    rw [← Bool.not_eq_true, hlog.reports_iff_withReason, h.diagnostics_at hsplit,
      DiagnosticLog.withReason_extend DiagnosticLog.inStep_empty]
    · intro hmem
      exact (List.disjoint_of_nodup_append hdistinct) hmem (by simp)
    · exact (List.nodup_append.mp hdistinct).1

/-- What holds of the requests of a script, and of those of the blocks that may be asked for, holds
of all requests that a course comes to. -/
theorem forall_request_within {P : Request → Prop}
    (hblocks : ∀ i, P (.generate i) → (j.blockScript i).Asks P P false)
    (h : j.Course script s steps a s') {opened : Bool} (hscript : script.Asks P P opened) :
    ∀ step ∈ steps, P step.request := by
  induction h generalizing opened with
  | done => exact fun _ hstep => nomatch hstep
  | block _ _ ihinside ihrest =>
    have hblock := hscript.1.elim id And.right
    refine List.forall_mem_cons.mpr ⟨hblock, ?_⟩
    exact List.forall_mem_append.mpr ⟨ihinside (hblocks _ hblock), ihrest (hscript.2 _)⟩
  | plain _ _ ih =>
    exact List.forall_mem_cons.mpr ⟨hscript.1.elim id And.right, ih (hscript.2 _)⟩

/-- What holds of the requests of all scripts holds of the requests that a course comes to. -/
theorem forall_request {P : Request → Prop} (hblocks : ∀ i, (j.blockScript i).Asks P P false)
    (h : j.Course script s steps a s') {opened : Bool} (hscript : script.Asks P P opened) :
    ∀ step ∈ steps, P step.request :=
  h.forall_request_within (fun i _ => hblocks i) hscript

/-- A script takes one course only. -/
theorem unique (h : j.Course script s steps a s') {steps₁ : List Step} {a₁ : α} {s₁ : Run}
    (h₁ : j.Course script s steps₁ a₁ s₁) : steps = steps₁ ∧ a = a₁ ∧ s' = s₁ := by
  induction h generalizing steps₁ s₁ with
  | done =>
    cases h₁
    exact ⟨rfl, rfl, rfl⟩
  | block _ _ ihinside ihrest =>
    cases h₁ with
    | block hinside hrest =>
      obtain ⟨rfl, rfl, rfl⟩ := ihinside hinside
      obtain ⟨rfl, rfl, rfl⟩ := ihrest hrest
      exact ⟨rfl, rfl, rfl⟩
    | plain hanswer => cases hanswer
  | plain hanswer _ ih =>
    cases h₁ with
    | block => cases hanswer
    | plain hanswer₁ hrest =>
      rw [hanswer] at hanswer₁
      cases hanswer₁
      obtain ⟨rfl, rfl, rfl⟩ := ih hrest
      exact ⟨rfl, rfl, rfl⟩

/-- On a forest the course of a script is the one that playing it takes. -/
theorem play?_eq (hforest : j.graph.IsForest) (h : j.Course script s steps a s') :
    j.play? script s = some (a, s') := by
  obtain ⟨b, s₁, hplay⟩ := exists_play? hforest script s
  obtain ⟨-, rfl, rfl⟩ := h.unique (course_of_play? hplay)
  exact hplay

end Job.Course

end BlockCompiler
