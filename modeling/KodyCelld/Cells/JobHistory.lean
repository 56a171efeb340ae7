import KodyCelld.Cells.JobRuns
import KodyCelld.Lib.Machine

namespace KodyCelld.Cells

open KodyCelld.Lib KodyCelld.Jobs

/-!
# What the claims of a run return (`cells/user-cell.ts`, jobs)

Runs of saves, deletes, updates and claims whose clock does not go back.  The query for due jobs
compares the texts of two instants, so a claim is exact where the years of both are written alike.

* `claim_exact` — what such a claim returns, and every row that it leaves;
* `HistoryOk`, `historyOk_step` — the next run of a row was computed after every claim of its job;
* `schedule_over_runs` — nothing is due after a claim, and no run is returned twice;
* `claimed_twice` — a run thousands of years away, returned by two claims at one time.
-/

/-! ### Runs -/

/-- The clock does not go back. -/
def Forward (s : JobState) (call : JobCall) : Prop := ∀ now ∈ call.time?, s.clock ≤ now

/-- Every job that is due at a claim has a next run. -/
def Computable (engine : Engine) (s : JobState) : JobCall → Prop
  | .claim now => ∀ job ∈ s.cell.jobs.rows, IsDue now job → job.HasNextRun engine now
  | _ => True

/-- The year of the next run of every enabled job is written like the year of the claim. -/
def WrittenAlike (s : JobState) : JobCall → Prop
  | .claim now => ∀ job ∈ s.cell.jobs.rows, job.enabled = true → job.SameEra now
  | _ => True

/-- A call of a run whose claims are exact. -/
structure CalmCall (engine : Engine) (s : JobState) (call : JobCall) : Prop where
  forward : Forward s call
  computable : Computable engine s call
  alike : WrittenAlike s call

/-- The table as a machine: no call is refused. -/
def jobMachine (host : Host) (s : JobState) (call : JobCall) : Option JobState :=
  some (jobStep host s call)

/-! ### One claim -/

section
variable {host : Host} {s : JobState}

/-- What a claim returns of a job. -/
def returnedOf (s : JobState) (now : ℕ) (job : JobRow) : Returned :=
  ⟨job.id, s.lives job.id, job.nextRunAt.getD 0, isOnce job.schedule, now⟩

/-- **A claim is exact**: it returns the jobs that are due, and advances their rows. -/
theorem claim_exact {now : ℕ} (h : CalmCall host.engine s (.claim now)) : ∃ due,
    (jobsClaimDue host.engine now s.cell.jobs.rows).1 = .ok due ∧
    returnedBy host s (.claim now) = due.map (returnedOf s now) ∧
    (due.map JobRow.id).Nodup ∧ (∀ job, job ∈ due ↔ job ∈ s.cell.jobs.rows ∧ IsDue now job) ∧
    ∀ row ∈ (claimTable host.engine now s.cell.jobs).rows,
      (row ∈ s.cell.jobs.rows ∧ row ∉ due) ∨ ∃ old ∈ due, ∃ next,
        old.claimedNext host.engine now = .ok next ∧ row = old.advance now next := by
  obtain ⟨due, hok, hdue, hrows⟩ :=
    (claimsExactlyDue_iff host.engine now s.cell.jobs).mpr ⟨h.alike, h.computable⟩
  obtain ⟨rfl, -⟩ := claimAll_of_returns host.engine hok
  refine ⟨_, hok, ?_, dueJobs_nodup now s.cell.jobs, hdue, ?_⟩
  · simp only [returnedBy, hok]
    rfl
  · intro row hrow
    have hrow : row ∈ (jobsClaimDue host.engine now s.cell.jobs.rows).2 := hrow
    rw [hrows] at hrow
    obtain ⟨old, hold, rfl⟩ := List.mem_map.mp hrow
    by_cases hmem : old ∈ dueJobs now s.cell.jobs.rows
    · right
      rw [if_pos hmem]
      obtain ⟨next, hnext⟩ := h.computable old hold ((hdue old).mp hmem).2
      refine ⟨old, hmem, next, hnext, ?_⟩
      rw [hnext]
      rfl
    · left
      rw [if_neg hmem]
      exact ⟨hold, hmem⟩

/-- A next run that a claim computes is later than the claim. -/
theorem claimedNext_gt {engine : Engine} {now next : ℕ} {job : JobRow}
    (h : job.claimedNext engine now = .ok (some next)) : now < next :=
  computeNextRun_gt engine (nextRunText_some engine h).1

/-- **After a claim nothing is due.** -/
theorem not_due_after_claim {now next : ℕ} (h : CalmCall host.engine s (.claim now)) {row : JobRow}
    (hrow : row ∈ (claimTable host.engine now s.cell.jobs).rows) (henabled : row.enabled = true)
    (hnext : row.nextRunAt = some next) : now < next := by
  obtain ⟨due, -, -, -, hdue, hrows⟩ := claim_exact h
  rcases hrows row hrow with ⟨hold, hnot⟩ | ⟨old, -, next', hclaimed, rfl⟩
  · by_contra hle
    apply hnot
    rw [hdue]
    exact ⟨hold, henabled, next, hnext, by omega⟩
  · have hnext : next' = some next := hnext
    subst hnext
    exact claimedNext_gt hclaimed

end

/-! ### The history -/

/-- Two returns, the later one first: the same job was claimed before the later run was due, and
    strictly before it within one life, where a `once` job is not returned again. -/
def Apart (later earlier : Returned) : Prop :=
  later.id = earlier.id → earlier.claimedAt ≤ later.instant ∧
    (later.life = earlier.life → earlier.claimedAt < later.instant ∧ later.once = false)

/-- **The invariant**: each next run was computed after every claim of its job, and a row that was
    claimed in this life has a last run. -/
structure HistoryOk (host : Host) (s : JobState) : Prop where
  table : TableOk host s
  past : ∀ r ∈ s.returned, r.instant ≤ r.claimedAt ∧ r.claimedAt ≤ s.clock
  live : ∀ r ∈ s.returned, r.life ≤ s.lives r.id
  ran : ∀ r ∈ s.returned, r.life = s.lives r.id →
    ∃ row, s.cell.jobs.find? r.id = some row ∧ ∃ last, row.lastRunAt = some last
  next : ∀ row ∈ s.cell.jobs.rows, ∀ next, row.nextRunAt = some next → ∃ before ≤ s.clock,
    nextRunText host.engine row.schedule before row.timezone row.lastRunAt = .ok (some next) ∧
      ∀ r ∈ s.returned, r.id = row.id → r.claimedAt ≤ before
  apart : s.returned.Pairwise Apart

section
variable {host : Host} {s : JobState}

theorem historyOk_start (quotas : Quotas) : HistoryOk host (.start quotas) := by
  refine ⟨tableOk_start host quotas, ?_, ?_, ?_, ?_, List.Pairwise.nil⟩
  · intro r hr
    cases hr
  · intro r hr
    cases hr
  · intro r hr
    cases hr
  · intro row hrow
    cases hrow

/-- A life ends only with the row. -/
theorem lives_le_step (call : JobCall) (id : Text) : s.lives id ≤ (jobStep host s call).lives id := by
  show s.lives id ≤ if _ then s.lives id + 1 else s.lives id
  split
  · exact Nat.le_succ _
  · exact le_refl _

theorem clock_le_step (call : JobCall) : s.clock ≤ (jobStep host s call).clock := le_max_left ..

/-- The life goes on, so the row is still there. -/
theorem row_of_lives {call : JobCall} {id : Text} {old : JobRow} (hold : s.cell.jobs.find? id = some old)
    (h : (jobStep host s call).lives id ≤ s.lives id) :
    ∃ row, (cellAfter host call s.cell).jobs.find? id = some row := by
  rw [← Option.isSome_iff_exists, ← Option.isNone_eq_false_iff, ← Bool.not_eq_true,
    Option.isNone_iff_eq_none]
  intro hnone
  have hended : (jobStep host s call).lives id = s.lives id + 1 :=
    if_pos ⟨by rw [hold]; rfl, hnone⟩
  omega

/-- **What a call leaves of a job that was claimed in this life**: its row, with a last run. -/
theorem ran_step (h : HistoryOk host s) (call : JobCall) {r : Returned} (hr : r ∈ s.returned)
    (hlife : r.life = (jobStep host s call).lives r.id) :
    ∃ row, (jobStep host s call).cell.jobs.find? r.id = some row ∧
      ∃ last, row.lastRunAt = some last := by
  have hbefore := h.live r hr
  have hgrows := @lives_le_step host s call r.id
  obtain ⟨old, hold, last, hlast⟩ := h.ran r hr (by omega)
  obtain ⟨row, hrow⟩ := @row_of_lives host s call r.id old hold (by omega)
  refine ⟨row, hrow, ?_⟩
  obtain ⟨hmem, hid⟩ := Rows.find?_eq_some.mp hrow
  cases cellAfter_rows (fun row hrow => (h.table row hrow).named) call hmem with
  | kept hkept =>
    obtain rfl : row = old :=
      Option.some.inj ((Rows.find?_eq_some.mpr ⟨hkept, hid⟩).symm.trans hold)
    exact ⟨last, hlast⟩
  | recomputed now htime hnamed hkeeps hnext =>
    rw [hid, hold] at hkeeps
    exact ⟨last, hkeeps.trans hlast⟩
  | advanced now hcall old' hold' hdue next hnext heq =>
    exact ⟨now, by rw [heq]; rfl⟩

/-- A next run that was computed now, at the end of the history. -/
theorem next_of_now {now next clock : ℕ} {row : JobRow} {returned : List Returned}
    (htext : nextRunText host.engine row.schedule now row.timezone row.lastRunAt = .ok (some next))
    (hclock : now ≤ clock) (hpast : ∀ r ∈ returned, r.claimedAt ≤ now) : ∃ before ≤ clock,
      nextRunText host.engine row.schedule before row.timezone row.lastRunAt = .ok (some next) ∧
        ∀ r ∈ returned, r.id = row.id → r.claimedAt ≤ before :=
  ⟨now, hclock, htext, fun r hr _ => hpast r hr⟩

/-- **A call that is no claim** keeps the invariant: it returns nothing. -/
theorem historyOk_other (h : HistoryOk host s) {call : JobCall} (hforward : Forward s call)
    (hcall : ∀ now, call ≠ .claim now) : HistoryOk host (jobStep host s call) := by
  have hreturned : (jobStep host s call).returned = s.returned := by
    show returnedBy host s call ++ s.returned = s.returned
    cases call with
    | claim now => exact absurd rfl (hcall now)
    | save clock input => rfl
    | delete name => rfl
    | update now id enabled => rfl
  have hclock := @clock_le_step host s call
  refine ⟨tableOk_step h.table call, ?_, ?_, ?_, ?_, ?_⟩
  · intro r hr
    rw [hreturned] at hr
    obtain ⟨hinstant, hclaimed⟩ := h.past r hr
    exact ⟨hinstant, hclaimed.trans hclock⟩
  · intro r hr
    rw [hreturned] at hr
    exact (h.live r hr).trans (lives_le_step call r.id)
  · intro r hr hlife
    rw [hreturned] at hr
    exact ran_step h call hr hlife
  · intro row hrow next hnext
    rw [hreturned]
    cases cellAfter_rows (fun row hrow => (h.table row hrow).named) call hrow with
    | kept hkept =>
      obtain ⟨before, hbefore, htext, hclaims⟩ := h.next row hkept next hnext
      exact ⟨before, hbefore.trans hclock, htext, hclaims⟩
    | recomputed now htime hnamed hlast htext =>
      have hnow := hforward now htime
      rcases htext with htext | ⟨-, hnone⟩
      · rw [hnext] at htext
        apply next_of_now htext (time_le_clock htime)
        intro r hr
        exact (h.past r hr).2.trans hnow
      · rw [hnext] at hnone
        cases hnone
    | advanced now heq old hold hdue next hclaimed hrow => exact absurd heq (hcall now)
  · rw [hreturned]
    exact h.apart

/-- What a claim returns is apart from what was returned before. -/
theorem apart_of_due (h : HistoryOk host s) {now : ℕ} {job : JobRow} (hjob : job ∈ s.cell.jobs.rows)
    (hdue : IsDue now job) {earlier : Returned} (hearlier : earlier ∈ s.returned) :
    Apart (returnedOf s now job) earlier := by
  intro hid
  have hid : job.id = earlier.id := hid
  obtain ⟨-, next, hnext, -⟩ := hdue
  obtain ⟨before, -, htext, hclaims⟩ := h.next job hjob next hnext
  have hclaimed := hclaims earlier hearlier hid.symm
  have hge := nextRunText_ge host.engine htext
  have hinstant : (returnedOf s now job).instant = next := by
    show job.nextRunAt.getD 0 = next
    rw [hnext]
    rfl
  rw [hinstant]
  refine ⟨hclaimed.trans hge, ?_⟩
  intro hlife
  have hlife : s.lives job.id = earlier.life := hlife
  -- in one life the row has a last run, so its next run is later than when it was computed
  obtain ⟨row, hrow, last, hlast⟩ := h.ran earlier hearlier (by rw [← hid, hlife])
  obtain rfl : job = row :=
    Option.some.inj ((Rows.find?_eq_some.mpr ⟨hjob, hid⟩).symm.trans hrow)
  rw [hlast] at htext
  have hcompute := (nextRunText_some host.engine htext).1
  have hgt := computeNextRun_gt host.engine hcompute
  refine ⟨by omega, ?_⟩
  show isOnce job.schedule = false
  cases hschedule : job.schedule with
  | cron expression => rfl
  | interval every => rfl
  | once runAt =>
    rw [hschedule] at hcompute
    cases hcompute

/-- **A claim** keeps the invariant: it advances every row that it returns. -/
theorem historyOk_claim (h : HistoryOk host s) {now : ℕ} (hcalm : CalmCall host.engine s (.claim now)) :
    HistoryOk host (jobStep host s (.claim now)) := by
  obtain ⟨due, -, hreturnedBy, hnodup, hdue, hrows⟩ := claim_exact hcalm
  have hreturned : (jobStep host s (.claim now)).returned =
      due.map (returnedOf s now) ++ s.returned := by
    rw [← hreturnedBy]
    rfl
  have hmem : ∀ r ∈ (jobStep host s (.claim now)).returned,
      (∃ job ∈ due, returnedOf s now job = r) ∨ r ∈ s.returned := by
    intro r hr
    rw [hreturned, List.mem_append, List.mem_map] at hr
    exact hr
  have hclock := @clock_le_step host s (.claim now)
  have hnow : now ≤ (jobStep host s (.claim now)).clock := time_le_clock rfl
  have hforward : s.clock ≤ now := hcalm.forward now rfl
  -- the row of a returned job, after the claim
  have hfind : ∀ job ∈ due, ∃ row,
      (cellAfter host (.claim now) s.cell).jobs.find? job.id = some row ∧
        ∃ last, row.lastRunAt = some last := by
    intro job hjob
    have hids : job.id ∈ (claimTable host.engine now s.cell.jobs).rows.map JobRow.id := by
      show job.id ∈ (jobsClaimDue host.engine now s.cell.jobs.rows).2.map JobRow.id
      rw [jobsClaimDue_rows, claimAll_ids]
      exact List.mem_map_of_mem ((hdue job).mp hjob).1
    obtain ⟨row, hrow, hid⟩ := List.mem_map.mp hids
    refine ⟨row, Rows.find?_eq_some.mpr ⟨hrow, hid⟩, ?_⟩
    rcases hrows row hrow with ⟨hold, hnot⟩ | ⟨old, -, next, -, rfl⟩
    · obtain rfl : row = job :=
        List.inj_on_of_nodup_map s.cell.jobs.nodup hold ((hdue job).mp hjob).1 hid
      exact absurd hjob hnot
    · exact ⟨now, rfl⟩
  refine ⟨tableOk_step h.table _, ?_, ?_, ?_, ?_, ?_⟩
  · intro r hr
    rcases hmem r hr with ⟨job, hjob, rfl⟩ | hold
    · obtain ⟨-, next, hnext, hle⟩ := ((hdue job).mp hjob).2
      refine ⟨?_, hnow⟩
      show job.nextRunAt.getD 0 ≤ now
      rw [hnext]
      exact hle
    · obtain ⟨hinstant, hclaimed⟩ := h.past r hold
      exact ⟨hinstant, hclaimed.trans hclock⟩
  · intro r hr
    rcases hmem r hr with ⟨job, -, rfl⟩ | hold
    · exact lives_le_step _ job.id
    · exact (h.live r hold).trans (lives_le_step _ r.id)
  · intro r hr hlife
    rcases hmem r hr with ⟨job, hjob, rfl⟩ | hold
    · exact hfind job hjob
    · exact ran_step h _ hold hlife
  · intro row hrow next hnext
    rcases hrows row hrow with ⟨hold, hnot⟩ | ⟨old, -, next', hclaimed, rfl⟩
    · obtain ⟨before, hbefore, htext, hclaims⟩ := h.next row hold next hnext
      refine ⟨before, hbefore.trans hclock, htext, ?_⟩
      intro r hr hid
      rcases hmem r hr with ⟨job, hjob, rfl⟩ | hr
      · obtain rfl : job = row :=
          List.inj_on_of_nodup_map s.cell.jobs.nodup ((hdue job).mp hjob).1 hold hid
        exact absurd hjob hnot
      · exact hclaims r hr hid
    · have hnext : next' = some next := hnext
      subst hnext
      refine @next_of_now host now next _ (old.advance now (some next)) _ hclaimed hnow ?_
      intro r hr
      rcases hmem r hr with ⟨job, -, rfl⟩ | hold
      · exact le_refl now
      · exact (h.past r hold).2.trans hforward
  · rw [hreturned, List.pairwise_append]
    refine ⟨?_, h.apart, ?_⟩
    · -- one claim returns a job once
      rw [List.pairwise_map]
      refine (List.pairwise_map.mp hnodup).imp ?_
      intro a b hne hid
      exact absurd hid hne
    · intro later hlater earlier hearlier
      obtain ⟨job, hjob, rfl⟩ := List.mem_map.mp hlater
      obtain ⟨hrow, hisDue⟩ := (hdue job).mp hjob
      exact apart_of_due h hrow hisDue hearlier

/-- **One call** of such a run keeps the invariant. -/
theorem historyOk_step (h : HistoryOk host s) {call : JobCall} (hcalm : CalmCall host.engine s call) :
    HistoryOk host (jobStep host s call) := by
  cases call with
  | claim now => exact historyOk_claim h hcalm
  | save clock input => exact historyOk_other h hcalm.forward (by intro now; nofun)
  | delete name => exact historyOk_other h hcalm.forward (by intro now; nofun)
  | update now id enabled => exact historyOk_other h hcalm.forward (by intro now; nofun)

/-- Every state of such a run. -/
theorem historyOk_of_reaches {quotas : Quotas}
    (h : Reaches (jobMachine host) (CalmCall host.engine) (.start quotas) s) : HistoryOk host s := by
  apply Reaches.invariant (HistoryOk host) _ h (historyOk_start quotas)
  rintro s call _ hok hcalm ⟨⟩
  exact historyOk_step hok hcalm

end

/-! ### Runs of the schedule -/

/-- Two returns of a run, the later one first: not the same run of one job, and no second return of
    a `once` job that stayed declared; only a job that was deleted and declared again, at the very
    time of its claim, is returned for the same instant. -/
def ReturnedApart (later earlier : Returned) : Prop :=
  later.id = earlier.id →
    (later.life = earlier.life → later.instant ≠ earlier.instant ∧ later.once = false) ∧
    (later.instant = earlier.instant →
      later.life ≠ earlier.life ∧ earlier.claimedAt = earlier.instant)

/-- **The job schedule over whole runs.**  In every run of saves, deletes, updates and claims whose
    clock does not go back and whose claims are exact: after a claim no enabled job is due and a
    second claim returns nothing, no run of a job is returned twice, and a `once` job is returned
    once. -/
theorem schedule_over_runs (host : Host) (quotas : Quotas) (s : JobState)
    (hrun : Reaches (jobMachine host) (CalmCall host.engine) (.start quotas) s) :
    (∀ t, CalmCall host.engine s (.claim t) →
      let after := jobStep host s (.claim t)
      (∀ row ∈ after.cell.jobs.rows, row.enabled = true →
        ∀ next, row.nextRunAt = some next → t < next) ∧
      (WrittenAlike after (.claim t) →
        (jobsClaimDue host.engine t after.cell.jobs.rows).1 = .ok [])) ∧
    s.returned.Pairwise ReturnedApart := by
  have h := historyOk_of_reaches hrun
  constructor
  · intro t hcalm after
    have hlater : ∀ row ∈ after.cell.jobs.rows, row.enabled = true →
        ∀ next, row.nextRunAt = some next → t < next := by
      intro row hrow henabled next hnext
      exact not_due_after_claim hcalm hrow henabled hnext
    refine ⟨hlater, ?_⟩
    intro halike
    have hnone : ∀ job ∈ after.cell.jobs.rows, ¬ IsDue t job := by
      rintro job hjob ⟨henabled, next, hnext, hle⟩
      have := hlater job hjob henabled next hnext
      omega
    have hcalm' : CalmCall host.engine after (.claim t) := by
      refine ⟨?_, fun job hjob hdue => absurd hdue (hnone job hjob), halike⟩
      rintro now ⟨⟩
      exact max_le (hcalm.forward t rfl) (le_refl t)
    obtain ⟨due, hok, -, -, hdue, -⟩ := claim_exact hcalm'
    have hempty : due = [] := by
      rw [List.eq_nil_iff_forall_not_mem]
      intro job hjob
      obtain ⟨hmem, hisDue⟩ := (hdue job).mp hjob
      exact hnone job hmem hisDue
    rw [hok, hempty]
  · refine h.apart.imp_of_mem ?_
    intro later earlier _ hearlier hapart hid
    obtain ⟨hle, hlife⟩ := hapart hid
    have hpast := (h.past earlier hearlier).1
    constructor
    · intro heq
      obtain ⟨hlt, honce⟩ := hlife heq
      exact ⟨by omega, honce⟩
    · intro heq
      refine ⟨?_, by omega⟩
      intro hsame
      have := (hlife hsame).1
      omega

/-! ### Runs that are executed -/

/-- The clock does not go back, and each job of the table has a next run. -/
def checkComputable (engine : Engine) (s : JobState) (call : JobCall) : Bool :=
  call.time?.all (fun now => decide (s.clock ≤ now)) &&
    match call with
    | .claim now => s.cell.jobs.rows.all fun job => (job.claimedNext engine now).toOption.isSome
    | _ => true

/-- Every year of a claim is written alike. -/
def checkAlike (s : JobState) : JobCall → Bool
  | .claim now => s.cell.jobs.rows.all fun job =>
      job.nextRunAt.all fun next => decide (year10000 ≤ next ↔ year10000 ≤ now)
  | _ => true

def checkCalm (engine : Engine) (s : JobState) (call : JobCall) : Bool :=
  checkComputable engine s call && checkAlike s call

section
variable {engine : Engine} {s : JobState} {call : JobCall}

theorem forward_of_check (h : checkComputable engine s call = true) : Forward s call := by
  intro now hnow
  unfold checkComputable at h
  rw [Bool.and_eq_true] at h
  have htime := h.1
  rw [Option.mem_def.mp hnow] at htime
  exact of_decide_eq_true htime

theorem computable_of_check (h : checkComputable engine s call = true) :
    ∀ now, call = .claim now → ∀ job ∈ s.cell.jobs.rows, job.HasNextRun engine now := by
  rintro now rfl job hjob
  rw [checkComputable, Bool.and_eq_true] at h
  have hsome := List.all_eq_true.mp h.2 job hjob
  unfold JobRow.HasNextRun
  cases hnext : job.claimedNext engine now with
  | ok next => exact ⟨next, rfl⟩
  | error e =>
    rw [hnext] at hsome
    cases hsome

theorem calm_of_check (h : checkCalm engine s call = true) : CalmCall engine s call := by
  rw [checkCalm, Bool.and_eq_true] at h
  refine ⟨forward_of_check h.1, ?_, ?_⟩
  · cases call with
    | claim now => exact fun job hjob _ => computable_of_check h.1 now rfl job hjob
    | save clock input => trivial
    | delete name => trivial
    | update now id enabled => trivial
  · cases call with
    | claim now =>
      intro job hjob _ next hnext
      have halike := List.all_eq_true.mp h.2 job hjob
      rw [hnext] at halike
      exact of_decide_eq_true halike
    | save clock input => trivial
    | delete name => trivial
    | update now id enabled => trivial

end

/-- A run that meets its guards ends where the calls lead. -/
theorem execGuarded_jobMachine {host : Host} {guard : JobState → JobCall → Bool}
    {calls : List JobCall} {s : JobState}
    (h : (execGuarded (jobMachine host) guard s calls).isSome = true) :
    execGuarded (jobMachine host) guard s calls = some (jobsAfter host calls s) := by
  induction calls generalizing s with
  | nil => rfl
  | cons call rest ih =>
    rw [execGuarded] at h ⊢
    split at h
    · rename_i hguard
      rw [if_pos hguard]
      exact ih h
    · cases h

/-- The five-minute job is claimed, its package is saved again, and it is claimed again. -/
def pollCalls : List JobCall :=
  [.save saveClock pollInput, .claim (savedAt + 300000),
    .save ⟨fun _ => savedAt + 400000, savedAt + 400000⟩ pollInput, .claim (savedAt + 600000)]

/-- Both runs of the five-minute job are returned, once each. -/
theorem schedule_over_runs_poll :
    let s := jobsAfter plainHost pollCalls (.start emptyCell.quotas)
    s.returned.map Returned.instant = [savedAt + 600000, savedAt + 300000] ∧
      s.returned.Pairwise ReturnedApart := by
  intro s
  have hexec := @execGuarded_jobMachine plainHost (checkCalm plainHost.engine) pollCalls
    (.start emptyCell.quotas) (by decide +kernel)
  have hrun := reaches_of_execGuarded (fun s call h => @calm_of_check plainHost.engine s call h) hexec
  exact ⟨by decide +kernel, (schedule_over_runs plainHost emptyCell.quotas s hrun).2⟩

/-! ### A claim too early -/

/-- A package whose only job runs every half a million weeks, for the first time in the
    year 11609. -/
def slowInput : SaveInput where
  files :=
    [("package.json", .str ("\x7b\"name\":\"@me/slow\",\"kody\":\x7b\"jobs\":\x7b\"slow\":\x7b" ++
        "\"entry\":\"slow.js\",\"schedule\":\x7b\"type\":\"interval\"," ++
        "\"every\":\"500000 weeks\"\x7d\x7d\x7d\x7d\x7d")),
      ("slow.js", .str "export default 1"), ("README.md", .str "Slow"),
      ("AGENTS.md", .str "Slow")]
  source := none

/-- It is saved and then claimed twice, at one time. -/
def slowCalls : List JobCall := [.save saveClock slowInput, .claim savedAt, .claim savedAt]

/-- What each of the two claims returns. -/
def slowReturned : Returned :=
  ⟨"@me/slow#slow", 0, savedAt + 302400000000000, false, savedAt⟩

/-- **A run in the far future is claimed at once, twice.**  The clock does not go back and the next
    run of every job can be computed at each claim; the second claim at one time returns the job
    again, for the same run. -/
theorem claimed_twice :
    let s := jobsAfter plainHost slowCalls (.start emptyCell.quotas)
    Reaches (jobMachine plainHost) (fun s call => Forward s call ∧ ∀ now, call = .claim now →
      ∀ job ∈ s.cell.jobs.rows, job.HasNextRun utcEngine now) (.start emptyCell.quotas) s ∧
    s.returned = [slowReturned, slowReturned] ∧ ¬ s.returned.Pairwise ReturnedApart := by
  intro s
  have hexec := @execGuarded_jobMachine plainHost (checkComputable plainHost.engine) slowCalls
    (.start emptyCell.quotas) (by decide +kernel)
  have hrun := reaches_of_execGuarded
    (fun s call h => And.intro (@forward_of_check plainHost.engine s call h) (computable_of_check h))
    hexec
  have hreturned : s.returned = [slowReturned, slowReturned] := by decide +kernel
  refine ⟨hrun, hreturned, ?_⟩
  rw [hreturned]
  intro hpairwise
  have hapart := List.rel_of_pairwise_cons hpairwise (List.mem_singleton_self _)
  exact ((hapart rfl).1 rfl).1 rfl

end KodyCelld.Cells
