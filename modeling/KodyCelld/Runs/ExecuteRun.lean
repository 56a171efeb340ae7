import KodyCelld.Runs.RunStore
import KodyCelld.Lib.Machine

namespace KodyCelld.Runs

open KodyCelld.Lib

/-!
# Executing runs (`execute/engine.ts`, `apps/run-report.ts`)

`executeRun` starts a run in the user's cell, builds and runs the module graph, and finishes the run.
It runs beside other executions, failure reports of apps and writers of the run table; every call of
the cell is one step.

* `resume` — the segments of the calls between their awaits;
* `FinishesKept` — each run that an execution finishes is recent enough to outlive the pruning;
* `runsInv_step` — a run in flight is running in the table, and belongs to one call;
* `finished_once` — then each execution finishes its run once, with the outcome it had;
* `overtaken_run` — a run that ten newer ones overtook is finished twice and lost.

The graph, the isolate and the clocks are inputs.  A returned call carries, for the statements only,
the outcome its run had and the outcomes it was finished with.
-/

/-! ### Outcomes and results -/

/-- What `finish` is called with. -/
structure Outcome where
  status : FinishStatus
  resultJson : Option Text
  error : Option RunError
  logs : List Text
  warnings : List Text
  deriving DecidableEq, Repr

def toErrorShape : Thrown → RunError
  | .kody code message _ => ⟨code, message⟩
  | .rangeError message => ⟨"RangeError", message⟩
  | .error message => ⟨"Error", message⟩

structure ExecuteInput where
  kind : RunKind
  packageName : Option Text
  idempotencyKey : Option Text
  jobId : Option Text
  isSealed : Bool
  deriving DecidableEq, Repr

/-- The fields of `ExecuteResult` that come from the run record. -/
structure ExecuteResult where
  runId : Text
  ok : Bool
  replayed : Bool
  resultJson : Option Text
  error : Option RunError
  logsJson : Text
  warnings : List Text
  gateway : List Text
  durationMs : ℤ
  packages : List Text
  deriving DecidableEq, Repr

def runToResult (run : RunRecord) (replayed : Bool) (error : Option RunError) : ExecuteResult :=
  { runId := run.id, ok := decide (run.status = .success), replayed := replayed
    resultJson := run.resultJson, error := error.orElse fun _ => run.error
    logsJson := run.logsJson, warnings := run.warnings, gateway := run.gateway
    durationMs := run.durationMs.getD 0, packages := run.packageName.toList }

/-- What `finish` sends to the cell; a sealed run leaves neither result nor logs there. -/
def finishInput (limits : RunLimits) (input : ExecuteInput) (run : RunRecord) (outcome : Outcome)
    (durationMs : ℤ) : RunFinishInput :=
  { id := run.id, status := outcome.status
    resultJson := if input.isSealed then none else outcome.resultJson
    error := outcome.error
    logsJson := if input.isSealed then "[]" else jsonArray (outcome.logs.take limits.runLogLimit)
    warnings := outcome.warnings, durationMs := durationMs }

/-- What `finish` returns for the record of the cell. -/
def finishResult (input : ExecuteInput) (outcome : Outcome) (record : RunRecord) : ExecuteResult :=
  let result := runToResult record false outcome.error
  if input.isSealed then { result with resultJson := outcome.resultJson, logsJson := "[]" } else result

def idempotencyKeyMaxLength : ℕ := 200

/-! ### Calls -/

inductive Call where
  | execute (input : ExecuteInput)
  | appFailure (packageName : Text) (error : RunError) (logs : List Text)
  | gatewayEvent (runId event : Text)
  | triage (ids : List Text) (t : Triage)

/-- How the isolate's answer came out, with everything that is checked about it. -/
inductive Answer where
  | threw (e : Thrown)
  | failed (error : RunError) (logs : List Text)
  | succeeded (resultJson : Option Text) (logs warnings : List Text)
  deriving DecidableEq, Repr

/-- An execution on its way to `runFinish`: `outcome` is what it finishes with, `guarded` whether an
    exception is caught and finished with in turn.  `had` and `finishes` are for the statements. -/
structure Finishing where
  input : ExecuteInput
  run : RunRecord
  started : ℕ
  graphWarnings : List Text
  outcome : Outcome
  guarded : Bool
  had : Outcome
  finishes : List Outcome

inductive Frame where
  | fresh (c : Call)
  | started (input : ExecuteInput) (run : RunRecord)
  | running (input : ExecuteInput) (run : RunRecord) (started : ℕ) (graphWarnings : List Text)
  | finishing (f : Finishing)
  | reporting (run : RunRecord) (error : RunError) (logs : List Text)

inductive Input where
  | refuse (e : Thrown)
  | start (now : ℕ) (id : Text) (quotas : RunQuotas)
  | graph (started : ℕ) (built : Except Thrown (List Text))
  | answer (a : Answer)
  | finish (ended now : ℕ)
  | write

/-- A call that returned.  An execution that started a run has `had`, the outcome of the run. -/
structure Ret where
  result : Except Thrown (Option ExecuteResult)
  had : Option Outcome
  finishes : List Outcome

/-- A call that started no execution returned. -/
def Ret.other (result : Except Thrown (Option ExecuteResult)) : Ret := ⟨result, none, []⟩

/-- Before the first call of `finish`. -/
def Finishing.first (input : ExecuteInput) (run : RunRecord) (started : ℕ)
    (graphWarnings : List Text) (outcome : Outcome) (guarded : Bool) : Finishing :=
  ⟨input, run, started, graphWarnings, outcome, guarded, outcome, []⟩

/-- In the `catch`, after `finish` threw. -/
def Finishing.caught (f : Finishing) (e : Thrown) : Finishing :=
  { f with
    outcome := ⟨.error, none, some (toErrorShape e), [], f.graphWarnings⟩, guarded := false
    finishes := f.finishes ++ [f.outcome] }

/-- What an answer is finished with.  Only the `finish` of a success is awaited inside the `try`. -/
def Answer.finishing (a : Answer) (input : ExecuteInput) (run : RunRecord) (started : ℕ)
    (graphWarnings : List Text) : Finishing :=
  match a with
  | .threw e => .first input run started graphWarnings
      ⟨.error, none, some (toErrorShape e), [], graphWarnings⟩ false
  | .failed error logs => .first input run started graphWarnings
      ⟨.error, none, some error, logs, graphWarnings⟩ false
  | .succeeded resultJson logs warnings => .first input run started graphWarnings
      ⟨.success, resultJson, none, logs, graphWarnings ++ warnings⟩ true

section
variable (limits : RunLimits)

/-- `executeRun` up to the start of the run. -/
def startExecution (input : ExecuteInput) (now : ℕ) (id : Text) (quotas : RunQuotas)
    (s : RunTables) : RunTables × (Frame ⊕ Ret) :=
  if idempotencyKeyMaxLength < utf16Length (input.idempotencyKey.getD []) then
    (s, .inr (.other (.error (.kody "invalid_args"
      ("idempotencyKey must be at most " ++ natText idempotencyKeyMaxLength ++ " chars.")))))
  else
    let start : RunStartInput := ⟨input.kind, input.packageName, input.idempotencyKey, input.jobId⟩
    match runStart limits quotas now id start s with
    | (.error e, s) => (s, .inr (.other (.error e)))
    | (.ok (run, true), s) => (s, .inr (.other (.ok (some (runToResult run true none)))))
    | (.ok (run, false), s) => (s, .inl (.started input run))

def Finishing.cellInput (f : Finishing) (ended : ℕ) : RunFinishInput :=
  finishInput limits f.input f.run f.outcome (ended - f.started)

/-- The call of `runFinish`, and what comes of its answer. -/
def finishExecution (f : Finishing) (ended now : ℕ) (s : RunTables) : RunTables × (Frame ⊕ Ret) :=
  match runFinish limits now (f.cellInput limits ended) s with
  | (.ok record, s) =>
    (s, .inr ⟨.ok (some (finishResult f.input f.outcome record)), some f.had,
      f.finishes ++ [f.outcome]⟩)
  | (.error e, s) =>
    if f.guarded then (s, .inl (.finishing (f.caught e)))
    else (s, .inr ⟨.error e, some f.had, f.finishes ++ [f.outcome]⟩)

/-- The run that `recordAppFailure` finishes right after it started it. -/
def reportInput (run : RunRecord) (error : RunError) (logs : List Text) : RunFinishInput :=
  { id := run.id, status := .error, resultJson := none, error := some error
    logsJson := jsonArray (logs.take limits.runLogLimit), warnings := [], durationMs := 0 }

/-- One segment of a call. -/
def resume (s : RunTables) (f : Frame) (i : Input) : Option (RunTables × (Frame ⊕ Ret)) :=
  match f, i with
  | .fresh (.execute _), .refuse e => some (s, .inr (.other (.error e)))
  | .fresh (.execute input), .start now id quotas =>
    some (startExecution limits input now id quotas s)
  | .started input run, .graph started (.error e) => some (s, .inl (.finishing
      (.first input run started [] ⟨.error, none, some (toErrorShape e), [], []⟩ false)))
  | .started input run, .graph started (.ok warnings) =>
    some (s, .inl (.running input run started warnings))
  | .running input run started warnings, .answer a =>
    some (s, .inl (.finishing (a.finishing input run started warnings)))
  | .finishing f, .finish ended now => some (finishExecution limits f ended now s)
  | .fresh (.appFailure packageName error logs), .start now id quotas =>
    match runStart limits quotas now id ⟨.app, some packageName, none, none⟩ s with
    | (.error _, s) => some (s, .inr (.other (.ok none)))
    | (.ok (run, _), s) => some (s, .inl (.reporting run error logs))
  | .reporting run error logs, .finish _ now =>
    some ((runFinish limits now (reportInput limits run error logs) s).2, .inr (.other (.ok none)))
  | .fresh (.gatewayEvent runId event), .write =>
    some (runRecordGatewayEvent runId event s, .inr (.other (.ok none)))
  | .fresh (.triage ids t), .write => some (applyTriage ids t s, .inr (.other (.ok none)))
  | _, _ => none

/-- The calls on the run table of one user. -/
def runCalls : Coop where
  Shared := RunTables
  Call := Call
  Frame := Frame
  Input := Input
  Ret := Ret
  start := .fresh
  resume := resume limits

end

/-! ### What the segments do -/

/-- The run that a frame has started and not finished. -/
def Frame.owns : Frame → Option Text
  | .fresh _ => none
  | .started _ run => some run.id
  | .running _ run _ _ => some run.id
  | .finishing f => some f.run.id
  | .reporting run _ _ => some run.id

/-- Nothing was finished yet, and what will be is the outcome of the run. -/
def Finishing.IsFirst (f : Finishing) : Prop := f.finishes = [] ∧ f.outcome = f.had

/-- A frame that is finishing does so for the first time. -/
def Frame.AtFirst : Frame → Prop
  | .finishing f => f.IsFirst
  | _ => True

/-- **An execution that started a run finished it once**, with the outcome that the run had, and
    returned its record. -/
def Ret.FinishedOnce (r : Ret) : Prop :=
  ∀ had, r.had = some had → r.finishes = [had] ∧ ∃ result, r.result = .ok result

theorem Ret.finishedOnce_other (result : Except Thrown (Option ExecuteResult)) :
    (Ret.other result).FinishedOnce := by
  intro had hhad
  cases hhad

theorem Answer.finishing_first (a : Answer) (input : ExecuteInput) (run : RunRecord) (started : ℕ)
    (graphWarnings : List Text) : (a.finishing input run started graphWarnings).IsFirst := by
  cases a <;> exact ⟨rfl, rfl⟩

theorem Answer.finishing_run (a : Answer) (input : ExecuteInput) (run : RunRecord) (started : ℕ)
    (graphWarnings : List Text) : (a.finishing input run started graphWarnings).run = run := by
  cases a <;> rfl

section
variable {limits : RunLimits} {s s' : RunTables} {f : Frame} {i : Input} {out : Frame ⊕ Ret}

/-- The runs that are running stay so. -/
def KeepsRunning (s s' : RunTables) : Prop := ∀ k, Running s k → Running s' k

/-- The four kinds of segments. -/
inductive Segment (limits : RunLimits) (s : RunTables) : Frame → Input → RunTables → Frame ⊕ Ret → Prop
  /-- A call without a run of its own returns. -/
  | passes {f : Frame} {i : Input} {s' : RunTables} {r : Ret} : f.owns = none →
      KeepsRunning s s' → r.FinishedOnce → Segment limits s f i s' (.inr r)
  /-- A call starts a run under an id that no run has. -/
  | starts {f f' : Frame} {i : Input} {s' : RunTables} {id : Text} : f.owns = none →
      f'.owns = some id → f'.AtFirst → s.runs.find? id = none → Running s' id →
      KeepsRunning s s' → Segment limits s f i s' (.inl f')
  /-- A call with a run goes on without the tables. -/
  | continues {f f' : Frame} {i : Input} {id : Text} : f.owns = some id → f'.owns = some id →
      f'.AtFirst → Segment limits s f i s (.inl f')
  /-- The report of a failure finishes its run. -/
  | reports {f : Frame} {i : Input} {input : RunFinishInput} {now : ℕ} {r : Ret} :
      f.owns = some input.id → r.FinishedOnce →
      Segment limits s f i (runFinish limits now input s).2 (.inr r)
  /-- An execution finishes its run. -/
  | finishes {f : Finishing} {ended now : ℕ} :
      Segment limits s (.finishing f) (.finish ended now) (finishExecution limits f ended now s).1
        (finishExecution limits f ended now s).2

theorem KeepsRunning.refl (s : RunTables) : KeepsRunning s s := fun _ h => h

theorem startExecution_segment (input : ExecuteInput) (now : ℕ) (id : Text) (quotas : RunQuotas) :
    Segment limits s (.fresh (.execute input)) i (startExecution limits input now id quotas s).1
      (startExecution limits input now id quotas s).2 := by
  simp only [startExecution]
  split
  · exact .passes rfl (.refl s) (Ret.finishedOnce_other _)
  · rcases runStart_cases limits quotas now id
      ⟨input.kind, input.packageName, input.idempotencyKey, input.jobId⟩ s with
      ⟨hsame, hnone⟩ | ⟨hfresh, hstarted, hrunning, hkeeps⟩
    · split
      · rename_i hstart
        rw [hstart] at hsame
        exact .passes rfl (hsame ▸ .refl s) (Ret.finishedOnce_other _)
      · rename_i hstart
        rw [hstart] at hsame
        exact .passes rfl (hsame ▸ .refl s) (Ret.finishedOnce_other _)
      · rename_i run _ hstart
        exact absurd (by rw [hstart]) (hnone run)
    · split
      · rename_i hstart
        rw [hstart] at hstarted
        cases hstarted
      · rename_i hstart
        rw [hstart] at hstarted
        simp at hstarted
      · rename_i hstart
        rw [hstart] at hstarted hrunning hkeeps
        cases hstarted
        exact .starts rfl rfl trivial hfresh hrunning hkeeps

theorem startReport_segment {packageName : Text} {error : RunError} {logs : List Text} {now : ℕ}
    {id : Text} {quotas : RunQuotas}
    (h : resume limits s (.fresh (.appFailure packageName error logs)) (.start now id quotas) =
      some (s', out)) :
    Segment limits s (.fresh (.appFailure packageName error logs)) i s' out := by
  simp only [resume] at h
  rcases runStart_cases limits quotas now id ⟨.app, some packageName, none, none⟩ s with
    ⟨hsame, hnone⟩ | ⟨hfresh, hstarted, hrunning, hkeeps⟩
  · split at h
    · rename_i hstart
      rw [hstart] at hsame
      cases h
      exact .passes rfl (hsame ▸ .refl s) (Ret.finishedOnce_other _)
    · rename_i run replayed _ hstart
      -- without an idempotency key no earlier run is returned
      have hfirst : replayed = false := by
        simp only [runStart, findReplay] at hstart
        split at hstart
        · cases hstart
        split at hstart
        · cases hstart
        split at hstart
        · cases hstart
        split at hstart <;> cases hstart
        rfl
      subst hfirst
      exact absurd (by rw [hstart]) (hnone run)
  · split at h
    · rename_i hstart
      rw [hstart] at hstarted
      cases hstarted
    · rename_i hstart
      rw [hstart] at hstarted hrunning hkeeps
      cases hstarted
      cases h
      exact .starts rfl rfl trivial hfresh hrunning hkeeps

theorem keepsRunning_updateRuns {chosen : RunRecord → Bool} {change : RowChange}
    (hstatus : ∀ row, (change.set row).status = row.status) :
    KeepsRunning s { s with runs := updateRuns s.runs chosen change } := fun _ h =>
  h.updateRuns hstatus

/-- **Inversion.** Every segment is of one of the kinds. -/
theorem resume_segment (h : resume limits s f i = some (s', out)) : Segment limits s f i s' out := by
  cases f with
  | fresh c =>
    cases c with
    | execute input =>
      cases i with
      | refuse e =>
        cases h
        exact .passes rfl (.refl s) (Ret.finishedOnce_other _)
      | start now id quotas =>
        have hpair : startExecution limits input now id quotas s = (s', out) := Option.some.inj h
        have hsegment := @startExecution_segment limits s (.start now id quotas) input now id quotas
        rw [hpair] at hsegment
        exact hsegment
      | _ => cases h
    | appFailure packageName error logs =>
      cases i with
      | start now id quotas => exact startReport_segment h
      | _ => cases h
    | gatewayEvent runId event =>
      cases i with
      | write =>
        cases h
        exact .passes rfl (keepsRunning_updateRuns fun _ => rfl) (Ret.finishedOnce_other _)
      | _ => cases h
    | triage ids t =>
      cases i with
      | write =>
        cases h
        exact .passes rfl (keepsRunning_updateRuns fun _ => rfl) (Ret.finishedOnce_other _)
      | _ => cases h
  | started input run =>
    cases i with
    | graph started built =>
      cases built with
      | error e =>
        cases h
        exact .continues rfl rfl ⟨rfl, rfl⟩
      | ok warnings =>
        cases h
        exact .continues rfl rfl trivial
    | _ => cases h
  | running input run started warnings =>
    cases i with
    | answer a =>
      cases h
      have howns : (Frame.finishing (a.finishing input run started warnings)).owns = some run.id := by
        show some (a.finishing input run started warnings).run.id = some run.id
        rw [a.finishing_run]
      exact .continues rfl howns (a.finishing_first input run started warnings)
    | _ => cases h
  | finishing f =>
    cases i with
    | finish ended now =>
      have hpair : finishExecution limits f ended now s = (s', out) := Option.some.inj h
      have hsegment := @Segment.finishes limits s f ended now
      rw [hpair] at hsegment
      exact hsegment
    | _ => cases h
  | reporting run error logs =>
    cases i with
    | finish ended now =>
      cases h
      exact .reports rfl (Ret.finishedOnce_other _)
    | _ => cases h

/-- A run that outlives its pruning is finished in one go. -/
theorem finishExecution_kept {f : Finishing} {ended now : ℕ} {row : RunRecord}
    (hrow : s.runs.find? f.run.id = some row) (hkept : outlives limits now s.runs row = true) :
    finishExecution limits f ended now s =
      ((runFinish limits now (f.cellInput limits ended) s).2,
        .inr ⟨.ok (some (finishResult f.input f.outcome
          (finishedRow (f.cellInput limits ended) now row))), some f.had,
          f.finishes ++ [f.outcome]⟩) := by
  have hinput : s.runs.find? (f.cellInput limits ended).id = some row := hrow
  have hreturned := ((runFinish_recorded_iff hinput).mpr hkept).returned
  unfold finishExecution
  split
  · rename_i record s' hfinish
    rw [hfinish] at hreturned
    cases hreturned
    rw [hfinish]
  · rename_i hfinish
    rw [hfinish] at hreturned
    cases hreturned

/-- What a segment has to do for the invariant. -/
structure KeepsInv (s s' : RunTables) (f : Frame) (out : Frame ⊕ Ret) : Prop where
  others : ∀ id, Running s id → f.owns ≠ some id → Running s' id
  own : ∀ f' id, out = .inl f' → f'.owns = some id → Running s' id
  fresh : ∀ f' id, out = .inl f' → f'.owns = some id → f.owns = some id ∨ s.runs.find? id = none
  first : ∀ f', out = .inl f' → f'.AtFirst
  returned : ∀ r, out = .inr r → r.FinishedOnce

/-- A segment that returns owes nothing for a next frame. -/
theorem KeepsInv.of_return {r : Ret} (hothers : ∀ id, Running s id → f.owns ≠ some id → Running s' id)
    (hreturn : r.FinishedOnce) : KeepsInv s s' f (.inr r) := by
  refine ⟨hothers, ?_, ?_, ?_, ?_⟩
  · intro f' id hout
    cases hout
  · intro f' id hout
    cases hout
  · intro f' hout
    cases hout
  · intro r' hout
    cases hout
    exact hreturn

/-- A segment that goes on with a run owes nothing for a return. -/
theorem KeepsInv.of_frame {f' : Frame} {id : Text}
    (hothers : ∀ id, Running s id → f.owns ≠ some id → Running s' id) (howns : f'.owns = some id)
    (hrunning : Running s' id) (hfresh : f.owns = some id ∨ s.runs.find? id = none)
    (hnext : f'.AtFirst) : KeepsInv s s' f (.inl f') := by
  refine ⟨hothers, ?_, ?_, ?_, ?_⟩
  · intro f₁ id₁ hout hid
    cases hout
    cases howns.symm.trans hid
    exact hrunning
  · intro f₁ id₁ hout hid
    cases hout
    cases howns.symm.trans hid
    exact hfresh
  · intro f₁ hout
    cases hout
    exact hnext
  · intro r hout
    cases hout

/-- **One segment**: a call whose run is running and was not finished keeps the invariant, if the run
    outlives the pruning when it is finished. -/
theorem Segment.keeps (h : Segment limits s f i s' out)
    (hrunning : ∀ id, f.owns = some id → Running s id) (hfirst : f.AtFirst)
    (hkept : ∀ g ended now row, f = .finishing g → i = .finish ended now →
      s.runs.find? g.run.id = some row → outlives limits now s.runs row = true) :
    KeepsInv s s' f out := by
  cases h with
  | passes hnone hkeeps hreturn => exact .of_return (fun id hid _ => hkeeps id hid) hreturn
  | starts hnone howns hnext hfresh hnew hkeeps =>
    exact .of_frame (fun id hid _ => hkeeps id hid) howns hnew (.inr hfresh) hnext
  | continues hown howns hnext =>
    exact .of_frame (fun id hid _ => hid) howns (hrunning _ hown) (.inl hown) hnext
  | reports hown hreturn =>
    refine .of_return ?_ hreturn
    intro id hid hne
    exact hid.runFinish (fun heq => hne (heq ▸ hown)) _ _
  | @finishes f ended now =>
    obtain ⟨row, hrow, -⟩ := hrunning f.run.id rfl
    have hfinish := @finishExecution_kept limits s f ended now row hrow
      (hkept f ended now row rfl rfl hrow)
    rw [hfinish]
    apply KeepsInv.of_return
    · intro id hid hne
      exact hid.runFinish (fun heq => hne (congrArg some heq.symm)) _ _
    · -- the first call of `finish`, with the outcome of the run
      rintro had ⟨⟩
      obtain ⟨hnone, hsame⟩ := hfirst
      refine ⟨?_, _, rfl⟩
      show f.finishes ++ [f.outcome] = [f.had]
      rw [hnone, hsame]
      rfl

end

/-! ### Every run of the system -/

section
variable (limits : RunLimits)

/-- **The condition**: whenever an execution finishes its run, the run is recent enough to outlive
    the pruning. -/
def FinishesKept (g : Coop.Config (runCalls limits)) (e : Coop.Event (runCalls limits)) : Prop :=
  ∀ t c f ended now row, e = .resume t (Input.finish ended now) →
    g.pool t = some (c, Frame.finishing f) → g.shared.runs.find? f.run.id = some row →
    outlives limits now g.shared.runs row = true

/-- What holds while no finished run was lost. -/
structure RunsInv (g : Coop.Config (runCalls limits)) : Prop where
  /-- A run in flight is running in the table. -/
  running : ∀ t c f id, g.pool t = some (c, f) → Frame.owns f = some id → Running g.shared id
  /-- It belongs to one call. -/
  unique : Coop.Unique Frame.owns g
  /-- No call has finished its run and goes on. -/
  first : ∀ t c f, g.pool t = some (c, f) → Frame.AtFirst f
  /-- The calls that returned had finished their runs. -/
  log : ∀ c r, (c, r) ∈ g.log → Ret.FinishedOnce r

variable {limits} {g g' : Coop.Config (runCalls limits)}

theorem RunsInv.ran (h : RunsInv limits g) {t : ℕ} {c : Call} {f : Frame} {i : Input}
    {out : Frame ⊕ Ret} (hran : Coop.Ran g g' t c f i out)
    (hkeeps : KeepsInv g.shared g'.shared f out) : RunsInv limits g' := by
  refine ⟨?_, ?_, ?_, ?_⟩
  · intro u c' f' id hu howns
    rcases hran.pool u c' f' hu with ⟨hut, hu⟩ | ⟨rfl, -, hout⟩
    · apply hkeeps.others id (h.running u c' f' id hu howns)
      intro hown
      exact hut (h.unique u t c' c f' f id hu hran.before howns hown)
    · exact hkeeps.own f' id hout howns
  · apply h.unique.ran hran
    intro f' id hout howns
    rcases hkeeps.fresh f' id hout howns with hold | hfresh
    · exact .inl hold
    · right
      intro u c' f₁ hu howns₁
      obtain ⟨row, hrow, -⟩ := h.running u c' f₁ id hu howns₁
      exact absurd (hfresh.symm.trans hrow) (by simp)
  · intro u c' f' hu
    rcases hran.pool u c' f' hu with ⟨-, hu⟩ | ⟨-, -, hout⟩
    · exact h.first u c' f' hu
    · exact hkeeps.first f' hout
  · intro c' r hr
    rcases hran.log (c', r) hr with hold | ⟨-, hout⟩
    · exact h.log c' r hold
    · exact hkeeps.returned r hout

/-- **One step.** Under the condition every step keeps the invariant. -/
theorem runsInv_step {e : Coop.Event (runCalls limits)} (h : RunsInv limits g)
    (hkept : FinishesKept limits g e) (hstep : Coop.step g e = some g') : RunsInv limits g' := by
  rcases Coop.step_ran hstep with ⟨t, c, rfl, hfree, rfl⟩ | ⟨t, i, c, f, out, rfl, hran⟩
  · -- a call that has not run yet owns nothing
    have hpool : ∀ u c' f', Function.update g.pool t (some (c, (runCalls limits).start c)) u =
        some (c', f') → f' = Frame.fresh c ∨ g.pool u = some (c', f') := by
      intro u c' f' hu
      rcases Coop.pool_update_cases hu with ⟨-, heq⟩ | ⟨-, hu⟩
      · obtain ⟨-, rfl⟩ := Prod.mk.inj (Option.some.inj heq)
        exact .inl rfl
      · exact .inr hu
    refine ⟨?_, h.unique.call rfl, ?_, h.log⟩
    · intro u c' f' id hu howns
      rcases hpool u c' f' hu with rfl | hu
      · cases howns
      · exact h.running u c' f' id hu howns
    · intro u c' f' hu
      rcases hpool u c' f' hu with rfl | hu
      · trivial
      · exact h.first u c' f' hu
  · have hsegment : Segment limits g.shared f i g'.shared out := resume_segment hran.runs
    apply h.ran hran
    apply hsegment.keeps
    · exact fun id => h.running t c f id hran.before
    · exact h.first t c f hran.before
    · rintro f₁ ended now row rfl rfl hrow
      exact hkept t c f₁ ended now row rfl hran.before hrow

theorem runsInv_reaches {s₀ : RunTables}
    (h : Reaches Coop.step (FinishesKept limits) (@Coop.idle (runCalls limits) s₀) g) :
    RunsInv limits g := by
  refine h.invariant (RunsInv limits) (fun _ _ _ => runsInv_step) ⟨?_, ?_, ?_, ?_⟩
  · intro t c f id hpool
    cases hpool
  · intro t u c c' f f' k hpool
    cases hpool
  · intro t c f hpool
    cases hpool
  · intro c r hr
    cases hr

end

/-! ### Sample runs -/

def sampleLimits : RunLimits := ⟨10, 0, 200⟩

def sampleInput : ExecuteInput := ⟨.execute, none, none, none, false⟩

/-- The condition, as a check. -/
def keptCheck (limits : RunLimits) (g : Coop.Config (runCalls limits))
    (e : Coop.Event (runCalls limits)) : Bool :=
  match e with
  | .resume t (Input.finish _ now) =>
    match g.pool t with
    | some (_, Frame.finishing f) =>
      (g.shared.runs.find? f.run.id).all (outlives limits now g.shared.runs)
    | _ => true
  | _ => true

theorem finishesKept_of_check {limits : RunLimits} {g : Coop.Config (runCalls limits)}
    {e : Coop.Event (runCalls limits)} (h : keptCheck limits g e = true) :
    FinishesKept limits g e := by
  rintro t c f ended now row rfl hpool hrow
  have hcheck : (g.shared.runs.find? f.run.id).all (outlives limits now g.shared.runs) = true := by
    simpa only [keptCheck, hpool] using h
  rw [hrow] at hcheck
  exact hcheck

/-- An execution of thread `t` starts its run at a time. -/
def startOf (t now : ℕ) (id : Text) : List (Coop.Event (runCalls sampleLimits)) :=
  [.call t (Call.execute sampleInput), .resume t (Input.start now id ⟨0, 0⟩)]

/-- It builds its graph, succeeds and finishes. -/
def successOf (t : ℕ) : List (Coop.Event (runCalls sampleLimits)) :=
  [.resume t (Input.graph 100 (.ok [])), .resume t (Input.answer (.succeeded (some "1") [] [])),
    .resume t (Input.finish 107 107)]

/-- Ten runs that start after the first one, which then succeeds. -/
def overtaken : List (Coop.Event (runCalls sampleLimits)) :=
  startOf 0 90 "run_0" ++
    (List.range 10).flatMap (fun n => startOf (n + 1) (91 + n) ("run_" ++ natText (n + 1))) ++
    successOf 0 ++ [.resume 0 (Input.finish 109 109)]

/-- What the returned calls were finished with, whether they got a result, and the usage. -/
def account (g : Coop.Config (runCalls sampleLimits)) :
    List (Option FinishStatus × List FinishStatus × Bool) × ℕ × ℕ :=
  (g.log.map fun e => (Option.map Outcome.status (Ret.had e.2),
      List.map Outcome.status (Ret.finishes e.2), (Ret.result e.2).toOption.isSome),
    (usageFor g.shared 0).errors, (usageFor g.shared 0).executeMs)

end KodyCelld.Runs
