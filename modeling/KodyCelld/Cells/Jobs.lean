import KodyCelld.Jobs.Schedule
import KodyCelld.Lib.Rows
import Mathlib.Data.List.Sort

namespace KodyCelld.Cells

open KodyCelld.Lib KodyCelld.Jobs

/-!
# The job table of a user cell (`cells/user-cell.ts`, jobs)

`jobsClaimDue` reads the due rows and then, row by row, computes the next run and writes it: an
exception in between leaves the rows already written as they are.

* `claimAll_ok`, `hasNextRun_of_claimAll` — the loop ends normally exactly when every row it
  claims has a next run;
* `claimsExactlyDue_iff` — when claiming is isolated per job.
-/

/-- A row of `jobs`; `schedule` is the parsed `schedule_json`. -/
structure JobRow where
  id : Text
  packageName : Text
  jobName : Text
  entry : Text
  schedule : JobSchedule
  timezone : Option Text
  description : Option Text
  enabled : Bool
  nextRunAt : Option ℕ
  lastRunAt : Option ℕ
  lastStatus : Option Text
  lastError : Option Text
  createdAt : ℕ
  updatedAt : ℕ
  deriving DecidableEq, Repr

abbrev JobTable := Rows JobRow.id

variable (engine : Engine)

/-- `next_run_at <= ?`, on the texts the table holds. -/
def JobRow.dueBy (now : ℕ) (job : JobRow) : Bool :=
  job.enabled && match job.nextRunAt with
    | none => false
    | some next => isoLe next now

/-- `SELECT * FROM jobs WHERE enabled = 1 AND … ORDER BY next_run_at` -/
def dueJobs (now : ℕ) (rows : List JobRow) : List JobRow :=
  (rows.filter (JobRow.dueBy now)).insertionSort
    fun a b => isoLe (a.nextRunAt.getD 0) (b.nextRunAt.getD 0)

/-- The `UPDATE` of one claimed row. -/
def JobRow.advance (now : ℕ) (next : Option ℕ) (job : JobRow) : JobRow :=
  { job with nextRunAt := next, lastRunAt := some now, lastStatus := some "running",
             updatedAt := now }

@[simp] theorem JobRow.advance_id (now : ℕ) (next : Option ℕ) (job : JobRow) :
    (job.advance now next).id = job.id := rfl

/-- The next run of a row that is claimed at `now`. -/
def JobRow.claimedNext (now : ℕ) (job : JobRow) : Except Thrown (Option ℕ) :=
  nextRunText engine job.schedule now job.timezone (some now)

/-- The loop of `jobsClaimDue` over the rows still to claim. -/
def claimAll (now : ℕ) : List JobRow → List JobRow → Except Thrown Unit × List JobRow
  | [], rows => (.ok (), rows)
  | job :: due, rows =>
    match job.claimedNext engine now with
    | .error e => (.error e, rows)
    | .ok next => claimAll now due
        (rows.map fun row => if row.id = job.id then row.advance now next else row)

/-- Claims every due row and advances its schedule; the rows it leaves are what it wrote, also
    when it throws. -/
def jobsClaimDue (now : ℕ) (rows : List JobRow) : Except Thrown (List JobRow) × List JobRow :=
  let due := dueJobs now rows
  match claimAll engine now due rows with
  | (.error e, rows) => (.error e, rows)
  | (.ok (), rows) => (.ok due, rows)

/-! ### What claiming should do -/

/-- The enabled jobs whose next run is not after `now`, as instants. -/
def IsDue (now : ℕ) (job : JobRow) : Prop :=
  job.enabled = true ∧ ∃ next, job.nextRunAt = some next ∧ next ≤ now

/-- **Isolated claiming.**  The call returns; it returns exactly the due jobs; the rows of these
    are advanced, each to its own next run, and every other row is as before. -/
def ClaimsExactlyDue (now : ℕ) (jobs : JobTable) : Prop :=
  ∃ due, (jobsClaimDue engine now jobs.rows).1 = .ok due ∧
    (∀ job, job ∈ due ↔ job ∈ jobs.rows ∧ IsDue now job) ∧
    (jobsClaimDue engine now jobs.rows).2 = jobs.rows.map fun job =>
      if job ∈ due then job.advance now ((job.claimedNext engine now).toOption.getD none) else job

/-- The next run of the job after a claim at `now` can be computed and written. -/
def JobRow.HasNextRun (now : ℕ) (job : JobRow) : Prop :=
  ∃ next, job.claimedNext engine now = .ok next

/-- Writing years alike: `now` and the stored next run are both before year 10000 or both not. -/
def JobRow.SameEra (now : ℕ) (job : JobRow) : Prop :=
  ∀ next, job.nextRunAt = some next → (year10000 ≤ next ↔ year10000 ≤ now)

/-! ### The loop -/

theorem mem_dueJobs {now : ℕ} {rows : List JobRow} {job : JobRow} :
    job ∈ dueJobs now rows ↔ job ∈ rows ∧ job.dueBy now = true := by
  simp [dueJobs]

/-- **Loop lemma.**  The loop ends normally exactly when each row it claims has a next run, and
    then it has advanced these rows and no other. -/
theorem claimAll_ok {now : ℕ} {due rows : List JobRow} (hnodup : (due.map JobRow.id).Nodup)
    (h : ∀ job ∈ due, job.HasNextRun engine now) :
    claimAll engine now due rows = (.ok (), rows.map fun row =>
      match due.find? (fun job => job.id = row.id) with
      | some job => row.advance now ((job.claimedNext engine now).toOption.getD none)
      | none => row) := by
  induction due generalizing rows with
  | nil => simp [claimAll]
  | cons job due ih =>
    obtain ⟨next, hnext⟩ := h job (by simp)
    rw [List.map_cons, List.nodup_cons] at hnodup
    rw [claimAll, hnext]
    simp only
    rw [ih hnodup.2 fun j hj => h j (by simp [hj]), List.map_map]
    congr 1
    refine List.map_congr_left fun row _ => ?_
    by_cases hid : row.id = job.id
    · have hnone : due.find? (fun j => j.id = (row.advance now next).id) = none := by
        rw [List.find?_eq_none]
        intro j hj
        have hne : j.id ≠ job.id := fun he => hnodup.1 (he ▸ List.mem_map_of_mem hj)
        simpa [hid] using hne
      have hfind : (job :: due).find? (fun j => j.id = row.id) = some job := by
        simp [hid]
      rw [Function.comp_apply, if_pos hid, hnone, hfind]
      show row.advance now next = row.advance now ((job.claimedNext engine now).toOption.getD none)
      rw [hnext]
      rfl
    · have hfind : (job :: due).find? (fun j => j.id = row.id) = due.find? (fun j => j.id = row.id) := by
        simp [Ne.symm hid]
      rw [Function.comp_apply, if_neg hid, hfind]

/-- A loop that ended normally computed a next run for each row. -/
theorem hasNextRun_of_claimAll {now : ℕ} {due rows rows' : List JobRow}
    (h : claimAll engine now due rows = (.ok (), rows')) :
    ∀ job ∈ due, job.HasNextRun engine now := by
  induction due generalizing rows with
  | nil => simp
  | cons job due ih =>
    rw [claimAll] at h
    split at h
    · exact absurd h (by simp)
    rename_i next hnext
    intro j hj
    rcases List.mem_cons.mp hj with rfl | hj
    · exact ⟨next, hnext⟩
    · exact ih h j hj

/-! ### When claiming is isolated -/

/-- The ids of the due rows are distinct. -/
theorem dueJobs_nodup (now : ℕ) (jobs : JobTable) :
    ((dueJobs now jobs.rows).map JobRow.id).Nodup := by
  have hperm : ((dueJobs now jobs.rows).map JobRow.id).Perm
      ((jobs.rows.filter (JobRow.dueBy now)).map JobRow.id) :=
    (List.perm_insertionSort _ _).map _
  exact hperm.nodup_iff.mpr (jobs.nodup.sublist (List.filter_sublist.map _))

/-- Among rows with distinct ids, the row of a listed id is the listed row. -/
theorem find_own_row {now : ℕ} {jobs : JobTable} {row : JobRow} (hrow : row ∈ jobs.rows) :
    (dueJobs now jobs.rows).find? (fun job => job.id = row.id) =
      if row ∈ dueJobs now jobs.rows then some row else none := by
  have hinj : ∀ a ∈ jobs.rows, a.id = row.id → a = row := fun a ha hid =>
    List.inj_on_of_nodup_map jobs.nodup ha hrow hid
  by_cases hmem : row ∈ dueJobs now jobs.rows
  · rw [if_pos hmem]
    obtain ⟨found, hfound⟩ : ∃ found, (dueJobs now jobs.rows).find? (fun j => j.id = row.id) = some found := by
      rw [← Option.isSome_iff_exists, List.find?_isSome]
      exact ⟨row, hmem, by simp⟩
    have hsame : found = row := by
      refine hinj found (mem_dueJobs.mp (List.mem_of_find?_eq_some hfound)).1 ?_
      simpa using List.find?_some hfound
    rw [hfound, hsame]
  · rw [if_neg hmem, List.find?_eq_none]
    intro a ha
    have hne : a.id ≠ row.id := fun hid => hmem (hinj a (mem_dueJobs.mp ha).1 hid ▸ ha)
    simpa using hne

/-- The rows the query finds are the due jobs exactly when years are written alike. -/
theorem dueBy_iff_isDue {now : ℕ} {rows : List JobRow} :
    (∀ job ∈ rows, (job.dueBy now = true ↔ IsDue now job)) ↔
      ∀ job ∈ rows, job.enabled = true → job.SameEra now := by
  refine forall₂_congr fun job _ => ?_
  unfold JobRow.dueBy IsDue JobRow.SameEra
  cases hen : job.enabled
  · simp
  · cases hnext : job.nextRunAt with
    | none => simp
    | some next =>
      simp only [Bool.true_and, true_and, Option.some.injEq, exists_eq_left', forall_const,
        forall_eq']
      exact isoLe_iff_le next now

/-- A call that returns has run its loop to the end and returns the rows it found. -/
theorem claimAll_of_returns {now : ℕ} {rows due : List JobRow}
    (h : (jobsClaimDue engine now rows).1 = .ok due) :
    due = dueJobs now rows ∧ ∃ rows', claimAll engine now due rows = (.ok (), rows') := by
  unfold jobsClaimDue at h
  simp only at h
  split at h
  · exact absurd h (by simp)
  rename_i rows' hrun
  have hdue : due = dueJobs now rows := (Except.ok.inj h).symm
  exact ⟨hdue, rows', hdue ▸ hrun⟩

/-- **When claiming due jobs is isolated per job.**  It is so exactly when the next run of every
    enabled job is written with a year of the same length as `now`, and every job that is due
    then still has a next run that can be computed and written. -/
theorem claimsExactlyDue_iff (now : ℕ) (jobs : JobTable) :
    ClaimsExactlyDue engine now jobs ↔
      (∀ job ∈ jobs.rows, job.enabled = true → job.SameEra now) ∧
      (∀ job ∈ jobs.rows, IsDue now job → job.HasNextRun engine now) := by
  rw [← dueBy_iff_isDue]
  constructor
  · rintro ⟨due, hok, hdue, -⟩
    obtain ⟨rfl, rows', hrun⟩ := claimAll_of_returns engine hok
    have hiff : ∀ job ∈ jobs.rows, (job.dueBy now = true ↔ IsDue now job) := by
      intro job hjob
      have h := hdue job
      rw [mem_dueJobs] at h
      exact ⟨fun hd => (h.mp ⟨hjob, hd⟩).2, fun hd => (h.mpr ⟨hjob, hd⟩).2⟩
    refine ⟨hiff, fun job hjob hd => ?_⟩
    exact hasNextRun_of_claimAll engine hrun job (mem_dueJobs.mpr ⟨hjob, (hiff job hjob).mpr hd⟩)
  · rintro ⟨hiff, hnext⟩
    have hall : ∀ job ∈ dueJobs now jobs.rows, job.HasNextRun engine now := by
      intro job hjob
      obtain ⟨hrow, hdue⟩ := mem_dueJobs.mp hjob
      exact hnext job hrow ((hiff job hrow).mp hdue)
    have hrun := @claimAll_ok engine now _ jobs.rows (dueJobs_nodup now jobs) hall
    refine ⟨dueJobs now jobs.rows, ?_, ?_, ?_⟩
    · simp only [jobsClaimDue, hrun]
    · intro job
      rw [mem_dueJobs]
      exact ⟨fun h => ⟨h.1, (hiff job h.1).mp h.2⟩, fun h => ⟨h.1, (hiff job h.1).mpr h.2⟩⟩
    · simp only [jobsClaimDue, hrun]
      refine List.map_congr_left fun row hrow => ?_
      rw [find_own_row hrow]
      by_cases hmem : row ∈ dueJobs now jobs.rows
      · simp only [if_pos hmem]
      · simp only [if_neg hmem]

/-! ### A leap-day job blocks the others -/

/-- 2028-02-29T00:00:00Z -/
def leapDay : ℕ := 1835395200000

/-- A row of package `@me/jobs` as `packageSave` writes it. -/
def savedJob (name : Text) (schedule : JobSchedule) (next : ℕ) : JobRow where
  id := "@me/jobs#" ++ name
  packageName := "@me/jobs"
  jobName := name
  entry := "jobs.js"
  schedule := schedule
  timezone := none
  description := none
  enabled := true
  nextRunAt := some next
  lastRunAt := none
  lastStatus := none
  lastError := none
  createdAt := leapDay - 300000
  updatedAt := leapDay - 300000

def pollJob : JobRow := savedJob "poll" (.interval "5m") (leapDay - 60000)

def leapJob : JobRow := savedJob "leap" (.cron "0 0 29 2 *") leapDay

/-- A five-minute job and a job for 29 February, both due on that day. -/
def leapJobs : JobTable where
  rows := [pollJob, leapJob]
  nodup := by decide

/-- None of the 400 days after the leap day is a 29 February. -/
theorem no_leapDay_within_400_days : ∀ k : Fin 400,
    (utcParts (leapDay + (k.val + 1) * 86400000)).month = 2 →
      (utcParts (leapDay + (k.val + 1) * 86400000)).day ≠ 29 := by
  decide +kernel

/-- `0 0 29 2 *`, parsed. -/
def leapCron : ParsedCron where
  minute := [0]
  hour := [0]
  dayOfMonth := [29]
  month := [2]
  dayOfWeek := [0, 1, 2, 3, 4, 5, 6]
  domWildcard := false
  dowWildcard := true

/-- No minute of the scan after the leap day matches: it would be the midnight of a later
    29 February. -/
theorem cronMatches_leapCron {j : ℕ} (hj : 1 ≤ j) (hlast : j < 1 + cronLimit) :
    cronMatches leapCron (utcParts (leapDay + j * 60000)) = false := by
  by_contra hmatch
  rw [Bool.not_eq_false] at hmatch
  simp only [cronMatches, leapCron, List.mem_singleton, Bool.false_and, Bool.false_eq_true,
    if_false, if_true] at hmatch
  split_ifs at hmatch with hminute hhour hmonth
  have hmidnight : j % 1440 = 0 := by
    simp only [utcParts, leapDay] at hminute hhour
    omega
  have hk : j / 1440 - 1 < 400 := by
    unfold cronLimit at hlast
    omega
  have hdate : leapDay + j * 60000 = leapDay + (j / 1440 - 1 + 1) * 86400000 := by omega
  rw [hdate] at hmonth hmatch
  exact no_leapDay_within_400_days ⟨_, hk⟩ hmonth (by simpa using hmatch)

/-- Once it has run, the leap-day job has no next run. -/
theorem leapJob_no_next : ¬ leapJob.HasNextRun utcEngine leapDay := by
  rintro ⟨next, hnext⟩
  have hparse : parseCron "0 0 29 2 *" = .ok leapCron := by decide +kernel
  have hscan : cronScan utcEngine leapCron "UTC" (leapDay / 60000 * 60000) 1 cronLimit = .ok none := by
    refine cronScan_eq_none utcEngine fun j hj hlast => ?_
    have hstart : leapDay / 60000 * 60000 = leapDay := by decide
    have hin : leapDay + j * 60000 ≤ maxTime := by
      unfold leapDay maxTime
      unfold cronLimit at hlast
      omega
    rw [hstart]
    exact ⟨_, by simp [zonedParts, utcEngine, hin], cronMatches_leapCron hj hlast⟩
  have herr : nextCronOccurrence utcEngine "0 0 29 2 *" leapDay "UTC" =
      .error (invalidCron "0 0 29 2 *" "never matches within 400 days.") :=
    nextCronOccurrence_of_scan_none utcEngine hparse hscan
  have hclaim : nextRunText utcEngine (.cron "0 0 29 2 *") leapDay none (some leapDay) = _ :=
    nextRunText_of_cron_error utcEngine herr
  rw [JobRow.claimedNext, show nextRunText utcEngine leapJob.schedule leapDay leapJob.timezone
    (some leapDay) = _ from hclaim] at hnext
  exact absurd hnext (by simp)

/-- **One schedule blocks another job.**  Both schedules were accepted when saved, a minute
    before the leap day.  On that day the claim advances the five-minute job, then fails on the
    leap-day job, whose next occurrence is four years away, and returns nothing. -/
theorem leapJobs_not_claimed :
    (∀ job ∈ leapJobs.rows,
      validateSchedule utcEngine (leapDay - 60000) job.schedule job.timezone = .ok ()) ∧
    ¬ ClaimsExactlyDue utcEngine leapDay leapJobs := by
  refine ⟨by decide +kernel, ?_⟩
  rintro ⟨due, hok, -, -⟩
  obtain ⟨rfl, rows', hrun⟩ := claimAll_of_returns utcEngine hok
  have hmem : leapJob ∈ dueJobs leapDay leapJobs.rows :=
    mem_dueJobs.mpr ⟨by simp [leapJobs], by decide⟩
  exact leapJob_no_next (hasNextRun_of_claimAll utcEngine hrun leapJob hmem)

end KodyCelld.Cells
