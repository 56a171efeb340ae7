import KodyCelld.Errors
import KodyCelld.Lib.Json
import KodyCelld.Lib.Rows

namespace KodyCelld.Runs

open KodyCelld.Lib

/-!
# The run table (`cells/user-cell.ts`, `runs/triage-store.ts`)

Runs are rows that are started, finished and pruned; the usage of each UTC day is counted beside
them.

* `runStart`, `runFinish`, `pruneRuns` — the methods of the cell; `runRecordGatewayEvent`,
  `applyTriage` — the others that write the table;
* `outlives` — a run is recent enough for the pruning that its own finish does;
* `runFinish_recorded_iff` — exactly then finishing a running run returns its stored record;
* `runStart_cases`, `Running.runFinish` — a run that is running stays in the table until it is
  finished itself.

Times are milliseconds; the columns hold them as ISO texts, which compare in the same order.
-/

/-! ### The tables -/

/-- `runKinds` -/
inductive RunKind where
  | execute | package | job | webhook | subscription | secretProvider | app
  deriving DecidableEq, Repr

inductive RunStatus where
  | running | success | error
  deriving DecidableEq, Repr

/-- `runErrorTriageValues` -/
inductive RunErrorTriage where
  | ignored | resolved
  deriving DecidableEq, Repr

structure RunError where
  name : Text
  message : Text
  deriving DecidableEq, Repr

/-- A row of `runs`, which is also what `runGet` returns; a gateway event is kept as its JSON. -/
structure RunRecord where
  id : Text
  kind : RunKind
  packageName : Option Text
  idempotencyKey : Option Text
  status : RunStatus
  createdAt : ℕ
  finishedAt : Option ℕ
  durationMs : Option ℤ
  resultJson : Option Text
  error : Option RunError
  logsJson : Text
  warnings : List Text
  gateway : List Text
  errorTriage : Option RunErrorTriage
  triageNote : Option Text
  triagedAt : Option ℕ
  triagedBy : Option Text
  jobId : Option Text
  deriving DecidableEq, Repr

structure DailyUsage where
  day : ℕ
  runs : ℕ
  errors : ℕ
  executeMs : ℕ
  deriving DecidableEq, Repr

structure RunTables where
  runs : Rows RunRecord.id
  usage : Rows DailyUsage.day

def RunTables.empty : RunTables := ⟨⟨[], List.nodup_nil⟩, ⟨[], List.nodup_nil⟩⟩

structure RunLimits where
  runRetentionCount : ℕ
  runRetentionDays : ℕ
  runLogLimit : ℕ
  deriving DecidableEq, Repr

/-- `runsPerDay` and `executeMsPerDay`; zero is unlimited. -/
structure RunQuotas where
  runsPerDay : ℕ
  executeMsPerDay : ℕ
  deriving DecidableEq, Repr

def dayMs : ℕ := 86400000

/-- `utcDay()` -/
def utcDay (now : ℕ) : ℕ := now / dayMs

def DailyUsage.zero (day : ℕ) : DailyUsage := ⟨day, 0, 0, 0⟩

def usageFor (s : RunTables) (day : ℕ) : DailyUsage := (s.usage.find? day).getD (.zero day)

/-- `INSERT INTO usage_daily … ON CONFLICT(day) DO UPDATE SET …`, adding to the counts. -/
def addUsage (s : RunTables) (day runs errors executeMs : ℕ) : RunTables :=
  let add (u : DailyUsage) : DailyUsage :=
    ⟨u.day, u.runs + runs, u.errors + errors, u.executeMs + executeMs⟩
  { s with usage := s.usage.upsert ⟨day, runs, errors, executeMs⟩ add fun _ => rfl }

/-- What an `UPDATE` sets in a row: never its key, nor when it was created. -/
structure RowChange where
  set : RunRecord → RunRecord
  id : ∀ row, (set row).id = row.id
  createdAt : ∀ row, (set row).createdAt = row.createdAt

/-- The change where the row is chosen. -/
def RowChange.at (change : RowChange) (chosen : RunRecord → Bool) : RowChange where
  set row := if chosen row then change.set row else row
  id row := by
    split
    · exact change.id row
    · rfl
  createdAt row := by
    split
    · exact change.createdAt row
    · rfl

/-- `UPDATE runs SET … WHERE chosen` -/
def updateRuns (runs : Rows RunRecord.id) (chosen : RunRecord → Bool) (change : RowChange) :
    Rows RunRecord.id :=
  runs.map (change.at chosen).set (change.at chosen).id

/-! ### Pruning -/

/-- `SELECT id FROM runs ORDER BY created_at DESC LIMIT ?`; the index lists the rows of one time in
    the order of the table. -/
def newestIds (runs : Rows RunRecord.id) (n : ℕ) : List Text :=
  ((Rows.newest RunRecord.createdAt runs.rows).take n).map RunRecord.id

/-- Where the retention by age begins. -/
def cutoff (limits : RunLimits) (now : ℕ) : ℕ := now - limits.runRetentionDays * dayMs

def pruneRuns (limits : RunLimits) (now : ℕ) (s : RunTables) : RunTables :=
  let kept := newestIds s.runs limits.runRetentionCount
  let runs := s.runs.filter fun row => decide (row.status = .running ∨ row.id ∈ kept)
  if 0 < limits.runRetentionDays then
    { runs := runs.filter fun row =>
        decide (row.status = .running ∨ cutoff limits now ≤ row.createdAt)
      usage := s.usage.filter fun u => decide (utcDay (cutoff limits now) ≤ u.day) }
  else { s with runs := runs }

/-! ### Starting a run -/

structure RunStartInput where
  kind : RunKind
  packageName : Option Text
  idempotencyKey : Option Text
  jobId : Option Text
  deriving DecidableEq, Repr

def assertQuota (limit used : ℕ) (what : Text) : Except Thrown Unit :=
  if limit = 0 ∨ used < limit then .ok ()
  else .error (.kody "quota_exceeded"
    (what ++ " quota reached (" ++ natText used ++ "/" ++ natText limit ++ ").") 429)

def startedRow (id : Text) (now : ℕ) (input : RunStartInput) : RunRecord :=
  { id := id, kind := input.kind, packageName := input.packageName
    idempotencyKey := input.idempotencyKey, status := .running, createdAt := now
    finishedAt := none, durationMs := none, resultJson := none, error := none, logsJson := "[]"
    warnings := [], gateway := [], errorTriage := none, triageNote := none, triagedAt := none
    triagedBy := none, jobId := input.jobId }

/-- `runGet` by the idempotency key, where the key is not empty. -/
def findReplay (s : RunTables) (key : Option Text) : Option RunRecord :=
  match key with
  | some (c :: rest) => s.runs.rows.find? fun row => row.idempotencyKey = some (c :: rest)
  | _ => none

/-- The `INSERT`, under the primary key and the unique index on idempotency keys. -/
def insertRun (s : RunTables) (row : RunRecord) : Except Thrown RunTables :=
  if row.idempotencyKey ≠ none ∧ ∃ other ∈ s.runs.rows, other.idempotencyKey = row.idempotencyKey then
    .error (.error "UNIQUE constraint failed: runs.idempotency_key")
  else
    match s.runs.insert? row with
    | none => .error (.error "UNIQUE constraint failed: runs.id")
    | some runs => .ok { s with runs := runs }

/-- `runStart`: the run and whether it is an earlier one. -/
def runStart (limits : RunLimits) (quotas : RunQuotas) (now : ℕ) (id : Text) (input : RunStartInput)
    (s : RunTables) : Except Thrown (RunRecord × Bool) × RunTables :=
  match findReplay s input.idempotencyKey with
  | some existing => (.ok (existing, true), s)
  | none =>
    let usage := usageFor s (utcDay now)
    match assertQuota quotas.runsPerDay usage.runs "Daily run" with
    | .error e => (.error e, s)
    | .ok () =>
      match assertQuota quotas.executeMsPerDay usage.executeMs "Daily execute-time" with
      | .error e => (.error e, s)
      | .ok () =>
        match insertRun s (startedRow id now input) with
        | .error e => (.error e, s)
        | .ok inserted =>
          let s := pruneRuns limits now (addUsage inserted (utcDay now) 1 0 0)
          match s.runs.find? id with
          | none => (.error (.kody "internal_error" "Run insert failed." 500), s)
          | some run => (.ok (run, false), s)

/-! ### Finishing a run -/

/-- The status that a run is finished with. -/
inductive FinishStatus where
  | success | error
  deriving DecidableEq, Repr

def FinishStatus.toRunStatus : FinishStatus → RunStatus
  | success => .success
  | error => .error

structure RunFinishInput where
  id : Text
  status : FinishStatus
  resultJson : Option Text
  error : Option RunError
  logsJson : Text
  warnings : List Text
  durationMs : ℤ
  deriving DecidableEq, Repr

def recordMaxLength : ℕ := 256 * 1024

/-- The result as it is stored. -/
def storedResult (resultJson : Option Text) : Option Text :=
  resultJson.map fun json =>
    if recordMaxLength < utf16Length json then
      "\x7b\"truncated\":true,\"note\":\"Result exceeded the 256 KiB run-record limit.\"\x7d"
    else json

/-- The logs as they are stored. -/
def storedLogs (logsJson : Text) : Text :=
  if recordMaxLength < utf16Length logsJson then
    "[\x7b\"level\":\"warn\",\"args\":[\"Logs exceeded the 256 KiB run-record limit.\"]\x7d]"
  else logsJson

/-- The row that `runFinish` writes. -/
def finishedRow (input : RunFinishInput) (now : ℕ) (row : RunRecord) : RunRecord :=
  { row with
    status := input.status.toRunStatus, finishedAt := some now, durationMs := some input.durationMs
    resultJson := storedResult input.resultJson, error := input.error
    logsJson := storedLogs input.logsJson, warnings := input.warnings }

def finishedChange (input : RunFinishInput) (now : ℕ) : RowChange :=
  ⟨finishedRow input now, fun _ => rfl, fun _ => rfl⟩

def autoResolveNote : Text := "auto-resolved: later success of the same job"

def autoResolveBy : Text := "system:auto-resolve"

/-- The open errors of the job that were started before the run. -/
def resolvesFor (run : RunRecord) (jobId : Text) (row : RunRecord) : Bool :=
  decide (row.status = .error ∧ row.errorTriage = none ∧ row.kind = .job ∧ row.jobId = some jobId ∧
    (row.createdAt < run.createdAt ∨ (row.createdAt = run.createdAt ∧ row.id < run.id)))

def resolvedChange (now : ℕ) : RowChange where
  set row := { row with
    errorTriage := some .resolved, triageNote := some autoResolveNote
    triagedAt := some now, triagedBy := some autoResolveBy }
  id _ := rfl
  createdAt _ := rfl

/-- `autoResolveJob`, for a run that is a job's. -/
def autoResolve (now : ℕ) (id : Text) (runs : Rows RunRecord.id) : Rows RunRecord.id :=
  match runs.find? id with
  | none => runs
  | some run =>
    match run.kind, run.jobId with
    | .job, some (c :: jobId) =>
      updateRuns runs (resolvesFor run (c :: jobId)) (resolvedChange now)
    | _, _ => runs

/-- The `UPDATE` of the row, and what a success resolves. -/
def finishRuns (now : ℕ) (input : RunFinishInput) (runs : Rows RunRecord.id) : Rows RunRecord.id :=
  let runs := updateRuns runs (fun row => row.id = input.id) (finishedChange input now)
  if input.status = .success then autoResolve now input.id runs else runs

/-- `runFinish` -/
def runFinish (limits : RunLimits) (now : ℕ) (input : RunFinishInput) (s : RunTables) :
    Except Thrown RunRecord × RunTables :=
  let s := { s with runs := finishRuns now input s.runs }
  let s := addUsage s (utcDay now) 0 (if input.status = .error then 1 else 0) input.durationMs.toNat
  let s := pruneRuns limits now s
  match s.runs.find? input.id with
  | none => (.error (.kody "internal_error" "Run update failed." 500), s)
  | some run => (.ok run, s)

/-! ### Other writers -/

/-- `events.slice(-100)` after a push. -/
def gatewayChange (event : Text) : RowChange where
  set row := { row with gateway := (row.gateway ++ [event]).drop (row.gateway.length + 1 - 100) }
  id _ := rfl
  createdAt _ := rfl

def runRecordGatewayEvent (runId event : Text) (s : RunTables) : RunTables :=
  { s with runs := updateRuns s.runs (fun row => row.id = runId) (gatewayChange event) }

/-- What `runTriageUpdate` and `runTriageBulk` set in the rows that they chose. -/
structure Triage where
  errorTriage : Option RunErrorTriage
  note : Option (Option Text)
  time : Option ℕ
  author : Option Text
  deriving DecidableEq, Repr

def triageChange (t : Triage) : RowChange where
  set row := { row with
    errorTriage := t.errorTriage, triageNote := t.note.getD row.triageNote
    triagedAt := t.time, triagedBy := t.author }
  id _ := rfl
  createdAt _ := rfl

/-- `apply` of the triage store; without a note the one that is there stays. -/
def applyTriage (ids : List Text) (t : Triage) (s : RunTables) : RunTables :=
  { s with runs := updateRuns s.runs (fun row => row.id ∈ ids) (triageChange t) }

/-! ### Rows after an update -/

section
variable {runs : Rows RunRecord.id} {chosen : RunRecord → Bool} {change : RowChange}

theorem find?_updateRuns (k : Text) : (updateRuns runs chosen change).find? k =
    (runs.find? k).map fun row => if chosen row then change.set row else row :=
  Rows.find?_map ..

/-- An update leaves the newest runs what they are. -/
theorem newestIds_updateRuns (n : ℕ) :
    newestIds (updateRuns runs chosen change) n = newestIds runs n := by
  have horder : Rows.newest RunRecord.createdAt (runs.rows.map (change.at chosen).set) =
      (Rows.newest RunRecord.createdAt runs.rows).map (change.at chosen).set := by
    refine (List.map_insertionSort _ _ _ runs.rows ?_).symm
    intro a _ b _
    rw [(change.at chosen).createdAt a, (change.at chosen).createdAt b]
  show ((Rows.newest RunRecord.createdAt (runs.rows.map (change.at chosen).set)).take n).map
    RunRecord.id = _
  rw [horder, ← List.map_take, List.map_map]
  exact List.map_congr_left fun row _ => (change.at chosen).id row

end

section
variable {limits : RunLimits} {now : ℕ} {input : RunFinishInput} {s : RunTables}
variable {runs : Rows RunRecord.id} {row : RunRecord} {id : Text}

theorem autoResolve_cases (now : ℕ) (id : Text) (runs : Rows RunRecord.id) :
    autoResolve now id runs = runs ∨ ∃ run jobId, runs.find? id = some run ∧
      autoResolve now id runs =
        updateRuns runs (resolvesFor run jobId) (resolvedChange now) := by
  unfold autoResolve
  split
  · exact .inl rfl
  · rename_i run hrun
    split
    · exact .inr ⟨run, _, hrun, rfl⟩
    · exact .inl rfl

/-- Only errors are resolved. -/
theorem find?_autoResolve (hrow : runs.find? id = some row) (hstatus : row.status ≠ .error)
    (k : Text) : (autoResolve now k runs).find? id = some row := by
  rcases autoResolve_cases now k runs with heq | ⟨run, jobId, -, heq⟩
  · rw [heq, hrow]
  · have hno : resolvesFor run jobId row = false := decide_eq_false fun h => hstatus h.1
    rw [heq, find?_updateRuns, hrow, Option.map_some, hno]
    rfl

theorem newestIds_autoResolve (k : Text) (n : ℕ) :
    newestIds (autoResolve now k runs) n = newestIds runs n := by
  rcases autoResolve_cases now k runs with heq | ⟨run, jobId, -, heq⟩
  · rw [heq]
  · rw [heq]
    exact newestIds_updateRuns n

/-- The finished run itself. -/
theorem find?_finishRuns (hrow : runs.find? input.id = some row) :
    (finishRuns now input runs).find? input.id = some (finishedRow input now row) := by
  have hid : row.id = input.id := (Rows.find?_eq_some.mp hrow).2
  have hupdated : (updateRuns runs (fun row => row.id = input.id)
      (finishedChange input now)).find? input.id = some (finishedRow input now row) := by
    rw [find?_updateRuns, hrow, Option.map_some, decide_eq_true hid]
    rfl
  simp only [finishRuns]
  split
  · rename_i hsuccess
    apply find?_autoResolve hupdated
    simp [finishedRow, hsuccess, FinishStatus.toRunStatus]
  · exact hupdated

/-- Another run, while it is running. -/
theorem find?_finishRuns_other (hne : id ≠ input.id) (hrow : runs.find? id = some row)
    (hrunning : row.status = .running) : (finishRuns now input runs).find? id = some row := by
  have hid : row.id = id := (Rows.find?_eq_some.mp hrow).2
  have hupdated : (updateRuns runs (fun row => row.id = input.id)
      (finishedChange input now)).find? id = some row := by
    have hno : decide (row.id = input.id) = false := decide_eq_false fun h => hne (hid ▸ h)
    rw [find?_updateRuns, hrow, Option.map_some, hno]
    rfl
  simp only [finishRuns]
  split
  · apply find?_autoResolve hupdated
    simp [hrunning]
  · exact hupdated

theorem newestIds_finishRuns (n : ℕ) :
    newestIds (finishRuns now input runs) n = newestIds runs n := by
  simp only [finishRuns]
  split
  · rw [newestIds_autoResolve]
    exact newestIds_updateRuns n
  · exact newestIds_updateRuns n

/-! ### Rows after pruning -/

/-- Whether a finished run outlives the pruning: it is among the newest runs, and young enough. -/
def outlives (limits : RunLimits) (now : ℕ) (runs : Rows RunRecord.id) (row : RunRecord) : Bool :=
  decide (row.id ∈ newestIds runs limits.runRetentionCount) &&
    decide (limits.runRetentionDays = 0 ∨ cutoff limits now ≤ row.createdAt)

theorem find?_pruneRuns (limits : RunLimits) (now : ℕ) (s : RunTables) (k : Text) :
    (pruneRuns limits now s).runs.find? k =
      (s.runs.find? k).filter fun row =>
        decide (row.status = .running) || outlives limits now s.runs row := by
  simp only [pruneRuns]
  split
  · rename_i hdays
    have hne : limits.runRetentionDays ≠ 0 := Nat.pos_iff_ne_zero.mp hdays
    rw [Rows.find?_filter, Rows.find?_filter, Option.filter_filter]
    congr 1
    funext row
    simp only [outlives, hne, false_or, Bool.decide_or]
    cases decide (row.status = .running) <;> simp [Bool.and_comm]
  · rename_i hdays
    have hzero : limits.runRetentionDays = 0 := Nat.eq_zero_of_not_pos hdays
    rw [Rows.find?_filter]
    simp only [outlives, hzero, true_or, decide_true, Bool.and_true, Bool.decide_or]

/-- The usage of the day is not pruned. -/
theorem usageFor_pruneRuns (limits : RunLimits) (now : ℕ) (s : RunTables) :
    usageFor (pruneRuns limits now s) (utcDay now) = usageFor s (utcDay now) := by
  simp only [pruneRuns, usageFor]
  split
  · rw [Rows.find?_filter]
    cases hfind : s.usage.find? (utcDay now) with
    | none => rfl
    | some u =>
      have hday : u.day = utcDay now := (Rows.find?_eq_some.mp hfind).2
      have hle : utcDay (cutoff limits now) ≤ u.day := by
        rw [hday]
        exact Nat.div_le_div_right (Nat.sub_le _ _)
      rw [Option.filter_some, decide_eq_true hle]
      rfl
  · rfl

theorem usageFor_addUsage (s : RunTables) (day runs errors executeMs : ℕ) :
    usageFor (addUsage s day runs errors executeMs) day =
      let old := usageFor s day
      ⟨old.day, old.runs + runs, old.errors + errors, old.executeMs + executeMs⟩ := by
  simp only [usageFor, addUsage]
  rw [Rows.find?_upsert, if_pos rfl]
  cases s.usage.find? day with
  | none => simp [DailyUsage.zero]
  | some u => rfl

/-! ### Finishing -/

/-- **Recorded once**: finishing the run returns the row as it is stored, with what it was finished
    with, and adds its duration to the usage of the day one time. -/
structure Recorded (limits : RunLimits) (now : ℕ) (input : RunFinishInput) (s : RunTables)
    (row : RunRecord) : Prop where
  returned : (runFinish limits now input s).1 = .ok (finishedRow input now row)
  stored : (runFinish limits now input s).2.runs.find? input.id = some (finishedRow input now row)
  counted : usageFor (runFinish limits now input s).2 (utcDay now) =
    let old := usageFor s (utcDay now)
    ⟨old.day, old.runs, old.errors + (if input.status = .error then 1 else 0),
      old.executeMs + input.durationMs.toNat⟩

/-- The tables at the end of `runFinish`. -/
theorem runFinish_tables (limits : RunLimits) (now : ℕ) (input : RunFinishInput) (s : RunTables) :
    (runFinish limits now input s).2 = pruneRuns limits now
      (addUsage { s with runs := finishRuns now input s.runs } (utcDay now) 0
        (if input.status = .error then 1 else 0) input.durationMs.toNat) := by
  simp only [runFinish]
  split <;> rfl

theorem outlives_finishRuns : outlives limits now (finishRuns now input runs)
    (finishedRow input now row) = outlives limits now runs row := by
  unfold outlives
  rw [newestIds_finishRuns]
  rfl

/-- **A finished run is recorded exactly when it outlives its own pruning.** -/
theorem runFinish_recorded_iff (hrow : s.runs.find? input.id = some row) :
    Recorded limits now input s row ↔ outlives limits now s.runs row = true := by
  have hstatus : decide ((finishedRow input now row).status = .running) = false := by
    cases hfinish : input.status <;> simp [finishedRow, hfinish, FinishStatus.toRunStatus]
  have hfind : (runFinish limits now input s).2.runs.find? input.id =
      (some (finishedRow input now row)).filter fun _ => outlives limits now s.runs row := by
    rw [runFinish_tables, find?_pruneRuns]
    show ((finishRuns now input s.runs).find? input.id).filter _ = _
    rw [find?_finishRuns hrow, Option.filter_some, Option.filter_some, hstatus, Bool.false_or]
    show (if outlives limits now (finishRuns now input s.runs) (finishedRow input now row) = true
      then _ else _) = _
    rw [outlives_finishRuns]
  constructor
  · intro h
    have hstored := h.stored
    rw [hfind, Option.filter_some] at hstored
    by_contra hno
    rw [if_neg hno] at hstored
    cases hstored
  · intro hyes
    rw [Option.filter_some, hyes, if_pos rfl] at hfind
    refine ⟨?_, hfind, ?_⟩
    · have htables := runFinish_tables limits now input s
      rw [htables] at hfind
      simp only [runFinish, hfind]
    · rw [runFinish_tables, usageFor_pruneRuns, usageFor_addUsage]
      rfl

/-! ### Running runs -/

/-- The run is in the table and not finished. -/
def Running (s : RunTables) (id : Text) : Prop :=
  ∃ row, s.runs.find? id = some row ∧ row.status = .running

/-- Pruning leaves it alone. -/
theorem Running.pruneRuns (h : Running s id) (limits : RunLimits) (now : ℕ) :
    Running (pruneRuns limits now s) id := by
  obtain ⟨row, hrow, hstatus⟩ := h
  refine ⟨row, ?_, hstatus⟩
  rw [find?_pruneRuns, hrow, Option.filter_some, decide_eq_true hstatus, Bool.true_or, if_pos rfl]

theorem Running.runFinish (h : Running s id) (hne : id ≠ input.id) (limits : RunLimits) (now : ℕ) :
    Running (runFinish limits now input s).2 id := by
  rw [runFinish_tables]
  apply Running.pruneRuns
  obtain ⟨row, hrow, hstatus⟩ := h
  exact ⟨row, find?_finishRuns_other hne hrow hstatus, hstatus⟩

/-- An update of other columns leaves a running run running. -/
theorem Running.updateRuns (h : Running s id) {chosen : RunRecord → Bool} {change : RowChange}
    (hstatus : ∀ row, (change.set row).status = row.status) :
    Running { s with runs := updateRuns s.runs chosen change } id := by
  obtain ⟨row, hrow, hrunning⟩ := h
  refine ⟨if chosen row then change.set row else row, ?_, ?_⟩
  · show (Runs.updateRuns s.runs chosen change).find? id = _
    rw [find?_updateRuns, hrow, Option.map_some]
  · split
    · rw [hstatus, hrunning]
    · exact hrunning

theorem insertRun_ok {s' : RunTables} (h : insertRun s row = .ok s') :
    s.runs.find? row.id = none ∧
      ∀ k, s'.runs.find? k = if row.id = k then some row else s.runs.find? k := by
  unfold insertRun at h
  split at h
  · cases h
  split at h
  · cases h
  rename_i runs hinsert
  cases h
  have hfind := Rows.find?_insert? hinsert
  refine ⟨?_, hfind⟩
  by_contra hsome
  obtain ⟨old, hold⟩ := Option.ne_none_iff_exists'.mp hsome
  obtain ⟨hmem, hid⟩ := Rows.find?_eq_some.mp hold
  unfold Rows.insert? at hinsert
  rw [dif_pos (hid ▸ List.mem_map_of_mem hmem)] at hinsert
  cases hinsert

/-- What `runStart` does: it leaves the tables as they are, or there is a new running run. -/
theorem runStart_cases (limits : RunLimits) (quotas : RunQuotas) (now : ℕ) (id : Text)
    (input : RunStartInput) (s : RunTables) :
    ((runStart limits quotas now id input s).2 = s ∧
      ∀ run, (runStart limits quotas now id input s).1 ≠ .ok (run, false)) ∨
    (s.runs.find? id = none ∧
      (runStart limits quotas now id input s).1 = .ok (startedRow id now input, false) ∧
      Running (runStart limits quotas now id input s).2 id ∧
      ∀ k, Running s k → Running (runStart limits quotas now id input s).2 k) := by
  simp only [runStart]
  cases findReplay s input.idempotencyKey with
  | some existing => exact .inl ⟨rfl, fun run h => by simp at h⟩
  | none =>
    cases assertQuota quotas.runsPerDay (usageFor s (utcDay now)).runs "Daily run" with
    | error e => exact .inl ⟨rfl, fun run h => by cases h⟩
    | ok =>
      cases assertQuota quotas.executeMsPerDay (usageFor s (utcDay now)).executeMs
          "Daily execute-time" with
      | error e => exact .inl ⟨rfl, fun run h => by cases h⟩
      | ok =>
        cases hinsert : insertRun s (startedRow id now input) with
        | error e => exact .inl ⟨rfl, fun run h => by cases h⟩
        | ok inserted =>
          right
          obtain ⟨hfresh, hfind⟩ := insertRun_ok hinsert
          have hid : (startedRow id now input).id = id := rfl
          have hnew : (pruneRuns limits now (addUsage inserted (utcDay now) 1 0 0)).runs.find? id =
              some (startedRow id now input) := by
            rw [find?_pruneRuns]
            show (inserted.runs.find? id).filter _ = _
            rw [hfind, if_pos hid]
            rfl
          simp only [hnew]
          refine ⟨hfresh, trivial, ⟨_, hnew, rfl⟩, ?_⟩
          intro k hk
          apply Running.pruneRuns
          obtain ⟨old, hold, hstatus⟩ := hk
          have hne : (startedRow id now input).id ≠ k := by
            rintro rfl
            exact absurd (hfresh.symm.trans hold) (by simp)
          refine ⟨old, ?_, hstatus⟩
          show inserted.runs.find? k = some old
          rw [hfind, if_neg hne, hold]

end

end KodyCelld.Runs
