import KodyCelld.Cells.JobSync
import KodyCelld.Jobs.Recompute

namespace KodyCelld.Cells

open KodyCelld.Lib KodyCelld.Jobs KodyCelld.Execute KodyCelld.Packages

/-!
# Runs over the job table (`cells/user-cell.ts`, jobs)

Saves, deletes, updates and claims in any order.  A save computes the next run of every declared job
anew, from the time of the save and the last run.

* `RowOk`, `tableOk_after` — where the next run of a row comes from, in every reachable table;
* `isReturned_iff` — when a claim returns a job;
* `saves_lose_no_run` — exactly when a save keeps an occurrence, and a claim returns a `once` job;
* `postponed_run` — a save that puts off a run that is due.
-/

/-! ### States -/

inductive JobCall where
  | save (clock : SaveClock) (input : SaveInput)
  | delete (name : Text)
  | update (now : ℕ) (id : Text) (enabled : Option Bool)
  | claim (now : ℕ)

/-- The time of a call, where it reads the clock. -/
def JobCall.time? : JobCall → Option ℕ
  | .save clock _ => some clock.now
  | .delete _ => none
  | .update now _ _ => some now
  | .claim now => some now

/-- A job that a claim returned: the life of its row, the next run that was due, whether it was a
    `once` job, and the time of the claim. -/
structure Returned where
  id : Text
  life : ℕ
  instant : ℕ
  once : Bool
  claimedAt : ℕ
  deriving DecidableEq, Repr

/-- The cell, the latest time of a call, how often the row of each job was deleted, and the jobs that
    were returned, the latest first. -/
structure JobState where
  cell : UserCell
  clock : ℕ
  lives : Text → ℕ
  returned : List Returned

def JobState.start (quotas : Quotas) : JobState :=
  ⟨{ emptyCell with quotas := quotas }, 0, fun _ => 0, []⟩

def isOnce : JobSchedule → Bool
  | .once _ => true
  | _ => false

section
variable (host : Host)

def cellAfter (call : JobCall) (cell : UserCell) : UserCell :=
  match call with
  | .save clock input => (packageSave host clock input cell).2
  | .delete name => (packageDelete name cell).2
  | .update now id enabled =>
    { cell with jobs := (jobUpdate host.engine now id enabled cell.jobs).2 }
  | .claim now => { cell with jobs := claimTable host.engine now cell.jobs }

/-- What a call returns of jobs that were due. -/
def returnedBy (s : JobState) : JobCall → List Returned
  | .claim now =>
    match (jobsClaimDue host.engine now s.cell.jobs.rows).1 with
    | .error _ => []
    | .ok due => due.map fun job =>
        ⟨job.id, s.lives job.id, job.nextRunAt.getD 0, isOnce job.schedule, now⟩
  | _ => []

def jobStep (s : JobState) (call : JobCall) : JobState :=
  let cell := cellAfter host call s.cell
  { cell := cell
    clock := max s.clock (call.time?.getD 0)
    lives := fun id =>
      if (s.cell.jobs.find? id).isSome ∧ cell.jobs.find? id = none then s.lives id + 1
      else s.lives id
    returned := returnedBy host s call ++ s.returned }

/-- The state after a sequence of calls. -/
def jobsAfter (calls : List JobCall) (s : JobState) : JobState := calls.foldl (jobStep host) s

end

/-! ### Where the rows come from -/

/-- **Where a row of the next table comes from**: it was there, or its next run was computed at the
    time of the call from a last run that was kept, or a claim advanced it. -/
inductive RowFrom (engine : Engine) (call : JobCall) (jobs : JobTable) (row : JobRow) : Prop where
  | kept (h : row ∈ jobs.rows)
  | recomputed (now : ℕ) (htime : call.time? = some now) (hnamed : Named row)
      (hlast : row.lastRunAt = (jobs.find? row.id).bind JobRow.lastRunAt)
      (hnext : nextRunText engine row.schedule now row.timezone row.lastRunAt = .ok row.nextRunAt ∨
        (row.enabled = false ∧ row.nextRunAt = none))
  | advanced (now : ℕ) (hcall : call = .claim now) (old : JobRow) (hold : old ∈ jobs.rows)
      (hdue : old ∈ dueJobs now jobs.rows) (next : Option ℕ)
      (hnext : old.claimedNext engine now = .ok next) (heq : row = old.advance now next)

section
variable {host : Host} {cell : UserCell}

/-- A synced row has the name of the row before it, or the declared one. -/
theorem named_syncedRow {manifest : PackageManifest} {existing : Option JobRow} {now : ℕ}
    {j : Text × JobDefinition} {next : Option ℕ} (hname : '#' ∉ manifest.name)
    (hexisting : ∀ row ∈ existing, Named row) : Named (syncedRow manifest existing now j next) := by
  cases existing with
  | none => exact ⟨rfl, hname⟩
  | some row => exact ⟨(hexisting row rfl).id, (hexisting row rfl).packageName⟩

theorem saveRows_from (hnamed : ∀ row ∈ cell.jobs.rows, Named row) {clock : SaveClock}
    {input : SaveInput} {row : JobRow}
    (h : row ∈ (packageSave host clock input cell).2.jobs.rows) :
    RowFrom host.engine (.save clock input) cell.jobs row := by
  cases haccept : acceptSave host clock input cell with
  | error e =>
    rw [packageSave_of_rejected haccept] at h
    exact .kept h
  | ok accepted =>
    obtain ⟨files, manifest⟩ := accepted
    have hfind : (packageSave host clock input cell).2.jobs.find? row.id = some row :=
      Rows.find?_eq_some.mpr ⟨h, rfl⟩
    rcases (packageSave_jobs hnamed haccept).1 row.id with hkept | ⟨hnone, -⟩ |
      ⟨j, -, hid, next, hnext, hsynced⟩
    · rw [hfind] at hkept
      exact .kept (Rows.find?_eq_some.mp hkept.symm).1
    · rw [hfind] at hnone
      cases hnone
    · rw [hfind] at hsynced
      have hname := mark_notMem_name haccept
      have hexisting := existingJobs_find? hnamed hname j.1
      rw [hexisting] at hsynced
      unfold declaredNextRun at hnext
      rw [hexisting] at hnext
      have hrow := Option.some.inj hsynced
      have hnamedRow : Named row := by
        rw [hrow]
        apply named_syncedRow hname
        intro old hold
        exact hnamed old (Rows.find?_eq_some.mp hold).1
      -- the columns that the sync sets, and the last run that it leaves
      have hcolumns : row.schedule = j.2.schedule ∧ row.timezone = j.2.timezone ∧
          row.nextRunAt = next ∧ row.lastRunAt =
            (cell.jobs.find? (jobId manifest.name j.1)).bind fun row => row.lastRunAt := by
        rw [hrow]
        cases cell.jobs.find? (jobId manifest.name j.1) with
        | none => exact ⟨rfl, rfl, rfl, rfl⟩
        | some old => exact ⟨rfl, rfl, rfl, rfl⟩
      obtain ⟨hschedule, htimezone, hrunAt, hlast⟩ := hcolumns
      refine .recomputed clock.now rfl hnamedRow ?_ (.inl ?_)
      · rw [hid]
        exact hlast
      · rw [hschedule, htimezone, hrunAt, hlast]
        exact hnext

theorem updateRows_from (hnamed : ∀ row ∈ cell.jobs.rows, Named row) {now : ℕ} {id : Text}
    {enabled : Option Bool} {row : JobRow}
    (h : row ∈ (jobUpdate host.engine now id enabled cell.jobs).2.rows) :
    RowFrom host.engine (.update now id enabled) cell.jobs row := by
  rcases jobUpdate_rows host.engine h with hkept | ⟨old, hold, enabled', next, rfl, hnext⟩
  · exact .kept hkept
  · have hfind : cell.jobs.find? old.id = some old := Rows.find?_eq_some.mpr ⟨hold, rfl⟩
    refine .recomputed now rfl ⟨(hnamed old hold).id, (hnamed old hold).packageName⟩ ?_ hnext
    show old.lastRunAt = (cell.jobs.find? old.id).bind JobRow.lastRunAt
    rw [hfind]
    rfl

theorem claimRows_from {now : ℕ} {row : JobRow}
    (h : row ∈ (claimTable host.engine now cell.jobs).rows) :
    RowFrom host.engine (.claim now) cell.jobs row := by
  have h : row ∈ (jobsClaimDue host.engine now cell.jobs.rows).2 := h
  rw [jobsClaimDue_rows] at h
  rcases claimAll_rows host.engine h with hkept | ⟨job, hjob, old, hold, hid, next, hnext, rfl⟩
  · exact .kept hkept
  · have hsame : old = job :=
      List.inj_on_of_nodup_map cell.jobs.nodup hold (mem_dueJobs.mp hjob).1 hid
    subst hsame
    exact .advanced now rfl old hold hjob next hnext rfl

/-- **Every row of the next table** comes from the table before. -/
theorem cellAfter_rows (hnamed : ∀ row ∈ cell.jobs.rows, Named row) (call : JobCall) {row : JobRow}
    (h : row ∈ (cellAfter host call cell).jobs.rows) : RowFrom host.engine call cell.jobs row := by
  cases call with
  | save clock input => exact saveRows_from hnamed h
  | delete name => exact .kept (Rows.mem_filter.mp h).1
  | update now id enabled => exact updateRows_from hnamed h
  | claim now => exact claimRows_from h

end

/-! ### The invariant of a row -/

/-- The next run of a row was computed at some time so far, and an enabled job without one has
    run. -/
structure RowOk (engine : Engine) (clock : ℕ) (row : JobRow) : Prop where
  named : Named row
  next : ∀ next, row.nextRunAt = some next → ∃ before ≤ clock,
    nextRunText engine row.schedule before row.timezone row.lastRunAt = .ok (some next)
  pending : row.enabled = true → row.nextRunAt = none → ∃ last, row.lastRunAt = some last

/-- Every row of the table is as it should be. -/
def TableOk (host : Host) (s : JobState) : Prop :=
  ∀ row ∈ s.cell.jobs.rows, RowOk host.engine s.clock row

theorem RowOk.mono {engine : Engine} {clock clock' : ℕ} {row : JobRow} (h : RowOk engine clock row)
    (hle : clock ≤ clock') : RowOk engine clock' row := by
  refine ⟨h.named, ?_, h.pending⟩
  intro next hnext
  obtain ⟨before, hbefore, htext⟩ := h.next next hnext
  exact ⟨before, hbefore.trans hle, htext⟩

theorem time_le_clock {host : Host} {s : JobState} {call : JobCall} {now : ℕ}
    (h : call.time? = some now) : now ≤ (jobStep host s call).clock := by
  show now ≤ max s.clock (call.time?.getD 0)
  rw [h]
  exact le_max_right ..

/-- **One call** keeps the rows as they should be. -/
theorem tableOk_step {host : Host} {s : JobState} (h : TableOk host s) (call : JobCall) :
    TableOk host (jobStep host s call) := by
  intro row hrow
  have hclock : s.clock ≤ (jobStep host s call).clock := le_max_left ..
  cases cellAfter_rows (fun row hrow => (h row hrow).named) call hrow with
  | kept hkept => exact (h row hkept).mono hclock
  | recomputed now htime hnamed hlast hnext =>
    refine ⟨hnamed, ?_, ?_⟩
    · intro next hrunAt
      rcases hnext with htext | ⟨-, hnone⟩
      · rw [hrunAt] at htext
        exact ⟨now, time_le_clock htime, htext⟩
      · rw [hrunAt] at hnone
        cases hnone
    · intro henabled hrunAt
      rcases hnext with htext | ⟨hdisabled, -⟩
      · rw [hrunAt] at htext
        exact (nextRunText_none host.engine htext).2
      · rw [henabled] at hdisabled
        cases hdisabled
  | advanced now hcall old hold hdue next hnext heq =>
    subst heq hcall
    refine ⟨⟨(h old hold).named.id, (h old hold).named.packageName⟩, ?_, ?_⟩
    · intro next' hrunAt
      have hrunAt : next = some next' := hrunAt
      subst hrunAt
      exact ⟨now, time_le_clock rfl, hnext⟩
    · intro _ _
      exact ⟨now, rfl⟩

theorem tableOk_after {host : Host} (calls : List JobCall) {s : JobState} (h : TableOk host s) :
    TableOk host (jobsAfter host calls s) := by
  induction calls generalizing s with
  | nil => exact h
  | cons call rest ih => exact ih (tableOk_step h call)

theorem tableOk_start (host : Host) (quotas : Quotas) : TableOk host (.start quotas) := by
  intro row hrow
  cases hrow

/-- The claim at `now` returns the row. -/
def IsReturned (engine : Engine) (now : ℕ) (jobs : JobTable) (row : JobRow) : Prop :=
  ∃ due, (jobsClaimDue engine now jobs.rows).1 = .ok due ∧ row ∈ due

/-- **When a claim returns**: when each row that the query finds has a next run. -/
theorem jobsClaimDue_ok_iff {engine : Engine} {now : ℕ} {jobs : JobTable} {due : List JobRow} :
    (jobsClaimDue engine now jobs.rows).1 = .ok due ↔ due = dueJobs now jobs.rows ∧
      ∀ job ∈ jobs.rows, job.dueBy now = true → job.HasNextRun engine now := by
  constructor
  · intro h
    obtain ⟨rfl, rows', hrun⟩ := claimAll_of_returns engine h
    refine ⟨rfl, ?_⟩
    intro job hjob hdue
    exact hasNextRun_of_claimAll engine hrun job (mem_dueJobs.mpr ⟨hjob, hdue⟩)
  · rintro ⟨rfl, hnext⟩
    have hall : ∀ job ∈ dueJobs now jobs.rows, job.HasNextRun engine now := by
      intro job hjob
      obtain ⟨hrow, hdue⟩ := mem_dueJobs.mp hjob
      exact hnext job hrow hdue
    have hrun := @claimAll_ok engine now _ jobs.rows (dueJobs_nodup now jobs) hall
    simp only [jobsClaimDue, hrun]

/-- **When a claim returns a job**: when the query finds it, and no due job stops the loop. -/
theorem isReturned_iff {engine : Engine} {now : ℕ} {jobs : JobTable} {row : JobRow}
    (hrow : row ∈ jobs.rows) : IsReturned engine now jobs row ↔ row.dueBy now = true ∧
      ∀ job ∈ jobs.rows, job.dueBy now = true → job.HasNextRun engine now := by
  constructor
  · rintro ⟨due, hok, hmem⟩
    obtain ⟨rfl, hnext⟩ := jobsClaimDue_ok_iff.mp hok
    exact ⟨(mem_dueJobs.mp hmem).2, hnext⟩
  · rintro ⟨hdue, hnext⟩
    exact ⟨_, jobsClaimDue_ok_iff.mpr ⟨rfl, hnext⟩, mem_dueJobs.mpr ⟨hrow, hdue⟩⟩

/-- A next run that has come is found exactly when its year is written like the year now. -/
theorem dueBy_iff_sameEra {now next : ℕ} {row : JobRow} (henabled : row.enabled = true)
    (hnext : row.nextRunAt = some next) (hle : next ≤ now) :
    row.dueBy now = true ↔ row.SameEra now := by
  have hera : row.SameEra now ↔ (year10000 ≤ next ↔ year10000 ≤ now) := by
    unfold JobRow.SameEra
    rw [hnext]
    constructor
    · intro h
      exact h next rfl
    · rintro h _ ⟨⟩
      exact h
  rw [hera, ← isoLe_iff_le]
  unfold JobRow.dueBy
  rw [henabled, hnext, Bool.true_and]
  constructor
  · intro hiso
    exact ⟨fun _ => hle, fun _ => hiso⟩
  · intro hiff
    exact hiff.mpr hle

/-- An enabled `once` job that has not run has a next run: its instant, or the time of the call
    that computed it. -/
theorem RowOk.once {engine : Engine} {clock : ℕ} {row : JobRow} {runAt : Text} {r : ℤ}
    (h : RowOk engine clock row) (henabled : row.enabled = true) (honce : row.schedule = .once runAt)
    (hparse : engine.dateParse runAt = some r) (hlast : row.lastRunAt = none) :
    ∃ next, row.nextRunAt = some next ∧ (next : ℤ) ≤ max r clock := by
  cases hnext : row.nextRunAt with
  | none =>
    obtain ⟨last, hsome⟩ := h.pending henabled hnext
    rw [hlast] at hsome
    cases hsome
  | some next =>
    obtain ⟨before, hbefore, htext⟩ := h.next next hnext
    rw [honce, hlast] at htext
    obtain ⟨hcompute, hmax⟩ := nextRunText_some engine htext
    obtain ⟨r', hr', hmaxTime⟩ := computeNextRun_once engine hcompute hmax
    obtain rfl : r = r' := Option.some.inj (hparse.symm.trans hr')
    exact ⟨next, rfl, by omega⟩

/-- A `once` job that has run has no next run. -/
theorem RowOk.once_done {engine : Engine} {clock last : ℕ} {row : JobRow} {runAt : Text}
    (h : RowOk engine clock row) (honce : row.schedule = .once runAt)
    (hlast : row.lastRunAt = some last) : row.nextRunAt = none := by
  cases hnext : row.nextRunAt with
  | none => rfl
  | some next =>
    obtain ⟨before, -, htext⟩ := h.next next hnext
    rw [honce, hlast] at htext
    cases (nextRunText_some engine htext).1

/-- **When a claim past its instant returns a `once` job.** -/
theorem once_isReturned_iff {engine : Engine} {clock t : ℕ} {jobs : JobTable} {row : JobRow}
    {runAt : Text} {r : ℤ} (hok : RowOk engine clock row) (hrow : row ∈ jobs.rows)
    (henabled : row.enabled = true) (honce : row.schedule = .once runAt)
    (hparse : engine.dateParse runAt = some r) (hclock : clock ≤ t) (hr : r ≤ t) :
    IsReturned engine t jobs row ↔ row.lastRunAt = none ∧ row.SameEra t ∧
      ∀ job ∈ jobs.rows, job.dueBy t = true → job.HasNextRun engine t := by
  rw [isReturned_iff hrow]
  cases hlast : row.lastRunAt with
  | some last =>
    have hnone := hok.once_done honce hlast
    have hnot : row.dueBy t = false := by
      unfold JobRow.dueBy
      rw [hnone, Bool.and_false]
    rw [hnot]
    simp
  | none =>
    obtain ⟨next, hnext, hle⟩ := hok.once henabled honce hparse hlast
    have hdue : next ≤ t := by omega
    rw [dueBy_iff_sameEra henabled hnext hdue]
    simp

/-! ### Saving again -/

/-- The manifest declares the job of the row with the schedule and the timezone that it has. -/
structure Redeclares (manifest : PackageManifest) (j : Text × JobDefinition) (row : JobRow) :
    Prop where
  packageName : row.packageName = manifest.name
  jobName : row.jobName = j.1
  schedule : row.schedule = j.2.schedule
  timezone : row.timezone = j.2.timezone

/-- The job is there, with a next run not later than the one it had. -/
def RunKept (jobs : JobTable) (row : JobRow) : Prop :=
  ∃ row' ∈ jobs.rows, row'.id = row.id ∧
    ∀ next, row.nextRunAt = some next → ∃ next', row'.nextRunAt = some next' ∧ next' ≤ next

/-- The next run of the row, if it has one, is one that computing anew at `now` does not put off. -/
def KeepsRun (now : ℕ) (row : JobRow) : Prop :=
  ∀ next, row.nextRunAt = some next → KeepsNext row.schedule row.lastRunAt next now

/-- The next run computed anew, against the one that the row has. -/
theorem RowOk.recomputed {engine : Engine} {clock now next : ℕ} {next' : Option ℕ} {row : JobRow}
    (h : RowOk engine clock row) (hnext : row.nextRunAt = some next)
    (htext : nextRunText engine row.schedule now row.timezone row.lastRunAt = .ok next') :
    ∃ n, next' = some n ∧ (n ≤ next ↔ KeepsNext row.schedule row.lastRunAt next now) := by
  obtain ⟨before, -, hbefore⟩ := h.next next hnext
  cases next' with
  | none =>
    obtain ⟨⟨runAt, honce⟩, last, hlast⟩ := nextRunText_none engine htext
    rw [h.once_done honce hlast] at hnext
    cases hnext
  | some n => exact ⟨n, rfl, nextRunText_le_iff engine hbefore htext⟩

section
variable {host : Host} {clock : SaveClock} {input : SaveInput} {cell : UserCell}
  {files : PackageFiles} {manifest : PackageManifest} {j : Text × JobDefinition} {row : JobRow}

/-- A declared job whose row was synced keeps its run exactly when computing anew does not put it
    off. -/
theorem synced_runKept_iff {time : ℕ} (hok : RowOk host.engine time row)
    (hnamed : ∀ row ∈ cell.jobs.rows, Named row) (hname : '#' ∉ manifest.name)
    (hrow : row ∈ cell.jobs.rows) (hj : Redeclares manifest j row) {jobs : JobTable}
    (hsynced : Synced host manifest (existingJobs manifest cell) clock.now j
      (jobs.find? (jobId manifest.name j.1))) :
    RunKept jobs row ↔ KeepsRun clock.now row := by
  have hid : row.id = jobId manifest.name j.1 := by
    rw [hok.named.id, hj.packageName, hj.jobName]
  have hfind : cell.jobs.find? (jobId manifest.name j.1) = some row :=
    Rows.find?_eq_some.mpr ⟨hrow, hid⟩
  obtain ⟨next', htext, hafter⟩ := hsynced
  unfold declaredNextRun at htext
  rw [existingJobs_find? hnamed hname, hfind] at htext hafter
  -- the row before has the declared schedule, so the next run was computed from its columns
  have htext : nextRunText host.engine row.schedule clock.now row.timezone row.lastRunAt =
      .ok next' := by
    rw [hj.schedule, hj.timezone]
    exact htext
  obtain ⟨hmem, hafterId⟩ := Rows.find?_eq_some.mp hafter
  constructor
  · rintro ⟨row', hrow', hid', hkept⟩ next hnext
    obtain rfl : row' = syncedRow manifest (some row) clock.now j next' :=
      List.inj_on_of_nodup_map jobs.nodup hrow' hmem (hid'.trans (hid.trans hafterId.symm))
    obtain ⟨n, hn, hle⟩ := hkept next hnext
    obtain ⟨n', rfl, hiff⟩ := hok.recomputed hnext htext
    obtain rfl : n' = n := Option.some.inj hn
    exact hiff.mp hle
  · intro hkeeps
    refine ⟨_, hmem, rfl, ?_⟩
    intro next hnext
    obtain ⟨n, rfl, hiff⟩ := hok.recomputed hnext htext
    exact ⟨n, rfl, hiff.mpr (hkeeps next hnext)⟩

/-- What an accepted save does to the run of a job that it declares as before. -/
theorem packageSave_runKept {time : ℕ} (hok : ∀ row ∈ cell.jobs.rows, RowOk host.engine time row)
    (haccept : acceptSave host clock input cell = .ok (files, manifest))
    (hrow : row ∈ cell.jobs.rows) (hdeclared : j ∈ manifest.jobs.entries)
    (hj : Redeclares manifest j row) :
    let result := packageSave host clock input cell
    (KeepsRun clock.now row → RunKept result.2.jobs row) ∧
      ((∃ summary, result.1 = .ok summary) →
        (RunKept result.2.jobs row ↔ KeepsRun clock.now row)) := by
  intro result
  have hnamed : ∀ row ∈ cell.jobs.rows, Named row := fun row hrow => (hok row hrow).named
  have hname := mark_notMem_name haccept
  have hid : row.id = jobId manifest.name j.1 := by
    rw [(hnamed row hrow).id, hj.packageName, hj.jobName]
  have hsync := packageSave_jobs hnamed haccept
  constructor
  · intro hkeeps
    rcases hsync.1 row.id with hkept | ⟨-, hundeclared⟩ | ⟨j', hj', hid', hsynced⟩
    · have hfind : result.2.jobs.find? row.id = some row :=
        hkept.trans (Rows.find?_eq_some.mpr ⟨hrow, rfl⟩)
      refine ⟨row, (Rows.find?_eq_some.mp hfind).1, rfl, ?_⟩
      intro next hnext
      exact ⟨next, hnext, le_refl next⟩
    · exact absurd hid (hundeclared j hdeclared)
    · have hsame : j' = j :=
        List.inj_on_of_nodup_map manifest.jobs.nodup hj' hdeclared
          (jobId_jobName_inj (hid'.symm.trans hid))
      subst hsame
      rw [hid'] at hsynced
      exact (synced_runKept_iff (hok row hrow) hnamed hname hrow hj hsynced).mpr hkeeps
  · intro hreturned
    exact synced_runKept_iff (hok row hrow) hnamed hname hrow hj (hsync.2 hreturned j hdeclared)

end

/-- **Exactly when saving again loses no run.**  In every reachable table: an accepted save keeps the
    next run of a job declared as before when computing it anew does not put it off, and only then
    once the save returns; and a claim at or after its instant returns an enabled `once` job exactly
    when the job has not run, its year is written like the year now, and no due job stops the
    claim. -/
theorem saves_lose_no_run (host : Host) (quotas : Quotas) (calls : List JobCall) :
    let s := jobsAfter host calls (.start quotas)
    (∀ (clock : SaveClock) (input : SaveInput) (files : PackageFiles) (manifest : PackageManifest),
      acceptSave host clock input s.cell = .ok (files, manifest) →
      ∀ row ∈ s.cell.jobs.rows, ∀ j ∈ manifest.jobs.entries, Redeclares manifest j row →
        let result := packageSave host clock input s.cell
        (KeepsRun clock.now row → RunKept result.2.jobs row) ∧
          ((∃ summary, result.1 = .ok summary) →
            (RunKept result.2.jobs row ↔ KeepsRun clock.now row))) ∧
    (∀ row ∈ s.cell.jobs.rows, ∀ (runAt : Text) (r : ℤ) (t : ℕ), row.enabled = true →
      row.schedule = .once runAt → host.engine.dateParse runAt = some r → s.clock ≤ t → r ≤ t →
        (IsReturned host.engine t s.cell.jobs row ↔ row.lastRunAt = none ∧ row.SameEra t ∧
          ∀ job ∈ s.cell.jobs.rows, job.dueBy t = true → job.HasNextRun host.engine t)) := by
  intro s
  have hok : TableOk host s := tableOk_after calls (tableOk_start host quotas)
  constructor
  · intro clock input files manifest haccept row hrow j hdeclared hj
    exact packageSave_runKept hok haccept hrow hdeclared hj
  · intro row hrow runAt r t henabled honce hparse hclock hr
    exact once_isReturned_iff (hok row hrow) hrow henabled honce hparse hclock hr

/-! ### A save that puts off a run -/

def pollInput : SaveInput where
  files :=
    [("package.json", .str ("\x7b\"name\":\"@me/poll\",\"kody\":\x7b\"jobs\":\x7b\"poll\":\x7b" ++
        "\"entry\":\"poll.js\",\"schedule\":\x7b\"type\":\"interval\"," ++
        "\"every\":\"5m\"\x7d\x7d\x7d\x7d\x7d")),
      ("poll.js", .str "export default 1"), ("README.md", .str "Poll"),
      ("AGENTS.md", .str "Poll")]
  source := none

/-- The clock of a save five minutes after the first. -/
def laterClock : SaveClock where
  validatedAt := fun _ => savedAt + 300000
  now := savedAt + 300000

/-- The package has been saved once. -/
def polled : JobState := jobsAfter plainHost [.save saveClock pollInput] (.start emptyCell.quotas)

def pollDeclared : Text × JobDefinition :=
  ("poll", { entry := "poll.js", schedule := .interval "5m", timezone := none, enabled := none
             description := none })

/-- The row of the job: a run five minutes after the save. -/
def pollRow : JobRow where
  id := "@me/poll#poll"
  packageName := "@me/poll"
  jobName := "poll"
  entry := "poll.js"
  schedule := .interval "5m"
  timezone := none
  description := none
  enabled := true
  nextRunAt := some (savedAt + 300000)
  lastRunAt := none
  lastStatus := none
  lastError := none
  createdAt := savedAt
  updatedAt := savedAt

theorem polled_rows : polled.cell.jobs.rows = [pollRow] := by
  decide +kernel

theorem pollInput_accepted : ∃ files manifest,
    acceptSave plainHost laterClock pollInput polled.cell = .ok (files, manifest) ∧
      manifest.name = ("@me/poll" : Text) ∧ manifest.jobs.entries = [pollDeclared] := by
  have h : ((acceptSave plainHost laterClock pollInput polled.cell).toOption.map fun a =>
      (a.2.name, a.2.jobs.entries)) = some (("@me/poll" : Text), [pollDeclared]) := by
    decide +kernel
  obtain ⟨⟨files, manifest⟩, haccept, hseen⟩ := Option.map_eq_some_iff.mp h
  rw [Prod.mk.injEq] at hseen
  refine ⟨files, manifest, ?_, hseen⟩
  cases hresult : acceptSave plainHost laterClock pollInput polled.cell with
  | error e =>
    rw [hresult] at haccept
    cases haccept
  | ok accepted =>
    rw [hresult] at haccept
    exact congrArg Except.ok (Option.some.inj haccept)

theorem polled_again_rows :
    ((packageSave plainHost laterClock pollInput polled.cell).2.jobs.rows.map JobRow.nextRunAt) =
      [some (savedAt + 600000)] := by
  decide +kernel

/-- **A save puts off a run that is due.**  The package is saved again, unchanged, when its job is
    due and a claim would return it; the job then is due five minutes later. -/
theorem postponed_run : ∃ files manifest j,
    acceptSave plainHost laterClock pollInput polled.cell = .ok (files, manifest) ∧
    pollRow ∈ polled.cell.jobs.rows ∧ j ∈ manifest.jobs.entries ∧ Redeclares manifest j pollRow ∧
    pollRow.dueBy laterClock.now = true ∧
    ¬ RunKept (packageSave plainHost laterClock pollInput polled.cell).2.jobs pollRow := by
  obtain ⟨files, manifest, haccept, hname, hjobs⟩ := pollInput_accepted
  refine ⟨files, manifest, pollDeclared, haccept, ?_, ?_, ?_, by decide, ?_⟩
  · rw [polled_rows]
    exact List.mem_singleton_self _
  · rw [hjobs]
    exact List.mem_singleton_self _
  · exact ⟨hname.symm, rfl, rfl, rfl⟩
  · rintro ⟨row', hrow', -, hkept⟩
    obtain ⟨next', hnext', hle⟩ := hkept (savedAt + 300000) rfl
    have hlater : row'.nextRunAt ∈ [some (savedAt + 600000)] := by
      rw [← polled_again_rows]
      exact List.mem_map_of_mem hrow'
    rw [List.mem_singleton, hnext'] at hlater
    have := Option.some.inj hlater
    omega

end KodyCelld.Cells
