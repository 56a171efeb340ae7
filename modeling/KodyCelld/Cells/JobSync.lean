import KodyCelld.Cells.PackageSave

namespace KodyCelld.Cells

open KodyCelld.Lib KodyCelld.Jobs KodyCelld.Execute KodyCelld.Packages

/-!
# The job rows after each operation (`cells/user-cell.ts`)

Three operations write `next_run_at`: the sync of a save, `jobUpdate` and the claim.

* `Named` — the id of a row is its package and its name, so a save finds its own rows;
* `packageSave_jobs` — what a save leaves under each id, also when it throws;
* `packageSave_declared` — what it leaves of the jobs that it declares;
* `jobUpdate_rows`, `claimAll_rows` — the same for the other two.
-/

/-! ### Names of jobs -/

/-- The id of a declared job. -/
def jobId (packageName jobName : Text) : Text := packageName ++ "#" ++ jobName

/-- The id of a row is its package and its name. -/
structure Named (row : JobRow) : Prop where
  id : row.id = jobId row.packageName row.jobName
  packageName : '#' ∉ row.packageName

/-- A text is cut in one way at the first mark. -/
theorem append_mark_inj {mark : Char} {a b c d : Text} (ha : mark ∉ a) (hc : mark ∉ c)
    (h : a ++ mark :: b = c ++ mark :: d) : a = c ∧ b = d := by
  induction a generalizing c with
  | nil =>
    cases c with
    | nil => exact ⟨rfl, (List.cons.inj h).2⟩
    | cons x c =>
      have hx : mark = x := (List.cons.inj h).1
      exact absurd (hx ▸ List.mem_cons_self) hc
  | cons y a ih =>
    cases c with
    | nil =>
      have hy : y = mark := (List.cons.inj h).1
      exact absurd (hy ▸ List.mem_cons_self) ha
    | cons x c =>
      obtain ⟨rfl, hrest⟩ := List.cons.inj h
      obtain ⟨rfl, hd⟩ := ih (fun hm => ha (List.mem_cons_of_mem _ hm))
        (fun hm => hc (List.mem_cons_of_mem _ hm)) hrest
      exact ⟨rfl, hd⟩

theorem jobId_inj {p p' j j' : Text} (hp : '#' ∉ p) (hp' : '#' ∉ p') (h : jobId p j = jobId p' j') :
    p = p' ∧ j = j' := by
  unfold jobId at h
  rw [List.append_assoc, List.append_assoc] at h
  exact append_mark_inj hp hp' h

theorem jobId_jobName_inj {p j j' : Text} (h : jobId p j = jobId p j') : j = j' :=
  List.append_cancel_left h

/-- An accepted manifest has a name without the mark. -/
theorem mark_notMem_name {host : Host} {clock : SaveClock} {input : SaveInput} {cell : UserCell}
    {files : PackageFiles} {manifest : PackageManifest}
    (h : acceptSave host clock input cell = .ok (files, manifest)) : '#' ∉ manifest.name := by
  intro hmem
  have hpattern := (parsePackageManifest_accepted (acceptSave_manifest h)).1
  rcases packageNamePattern_chars hpattern hmem with hchar | hchar | hchar
  · exact absurd hchar (by decide)
  · exact absurd hchar (by decide)
  · exact absurd hchar (by decide)

/-! ### The rows of a package -/

section
variable {host : Host} {manifest : PackageManifest} {cell : UserCell}

/-- **A save finds its own rows**: the row of a declared name is the row of its id. -/
theorem existingJobs_find? (hnamed : ∀ row ∈ cell.jobs.rows, Named row)
    (hname : '#' ∉ manifest.name) (jobName : Text) :
    (existingJobs manifest cell).find? (fun row => decide (row.jobName = jobName)) =
      cell.jobs.find? (jobId manifest.name jobName) := by
  unfold existingJobs
  cases hfind : cell.jobs.find? (jobId manifest.name jobName) with
  | none =>
    rw [List.find?_eq_none]
    intro row hrow hjob
    obtain ⟨hmem, hpackage⟩ := List.mem_filter.mp hrow
    have hid : row.id = jobId manifest.name jobName := by
      rw [(hnamed row hmem).id, of_decide_eq_true hpackage, of_decide_eq_true hjob]
    have hsome := Rows.find?_eq_some.mpr ⟨hmem, hid⟩
    rw [hfind] at hsome
    cases hsome
  | some row =>
    obtain ⟨hmem, hid⟩ := Rows.find?_eq_some.mp hfind
    obtain ⟨hpackage, hjob⟩ := jobId_inj (hnamed row hmem).packageName hname
      ((hnamed row hmem).id.symm.trans hid)
    have hsome : ((cell.jobs.rows.filter fun job => job.packageName = manifest.name).find?
        fun row => decide (row.jobName = jobName)).isSome := by
      rw [List.find?_isSome]
      exact ⟨row, List.mem_filter.mpr ⟨hmem, decide_eq_true hpackage⟩, decide_eq_true hjob⟩
    obtain ⟨found, hfound⟩ := Option.isSome_iff_exists.mp hsome
    obtain ⟨hfoundMem, hfoundPackage⟩ := List.mem_filter.mp (List.mem_of_find?_eq_some hfound)
    have hfoundJob := List.find?_some hfound
    rw [decide_eq_true_eq] at hfoundJob
    have hfoundId : found.id = row.id := by
      rw [(hnamed found hfoundMem).id, of_decide_eq_true hfoundPackage, hfoundJob, hid]
    rw [hfound, List.inj_on_of_nodup_map cell.jobs.nodup hfoundMem hmem hfoundId]

/-! ### The sync of a save -/

/-- The row that the sync leaves of a declared job. -/
def syncedRow (manifest : PackageManifest) (existing : Option JobRow) (now : ℕ)
    (j : Text × JobDefinition) (next : Option ℕ) : JobRow :=
  let new := jobRow manifest existing now j.1 j.2 next
  existing.elim new fun row => { row with
    entry := new.entry, schedule := new.schedule, timezone := new.timezone
    description := new.description, enabled := new.enabled, nextRunAt := new.nextRunAt
    updatedAt := new.updatedAt }

/-- The sync has reached a declared job: its row is the one computed from the row before. -/
def Synced (host : Host) (manifest : PackageManifest) (existing : List JobRow) (now : ℕ)
    (j : Text × JobDefinition) (row : Option JobRow) : Prop :=
  ∃ next, declaredNextRun host existing now j = .ok next ∧
    row = some (syncedRow manifest (existing.find? fun row => decide (row.jobName = j.1)) now j next)

theorem find?_writeJob (new : JobRow) (id : Text) :
    (writeJob new cell).jobs.find? id =
      if new.id = id then some ((cell.jobs.find? id).elim new fun row => { row with
        entry := new.entry, schedule := new.schedule, timezone := new.timezone
        description := new.description, enabled := new.enabled, nextRunAt := new.nextRunAt
        updatedAt := new.updatedAt })
      else cell.jobs.find? id := by
  simp only [writeJob]
  rw [Rows.find?_upsert]

/-- What a turn of the loop writes. -/
theorem jobStatement_ok {existing : List JobRow} {now : ℕ} {j : Text × JobDefinition}
    {write : UserCell → UserCell} (h : jobStatement host manifest existing now j = .ok write) :
    ∃ next, declaredNextRun host existing now j = .ok next ∧
      write = writeJob (jobRow manifest (existing.find? fun row => decide (row.jobName = j.1)) now
        j.1 j.2 next) := by
  unfold jobStatement at h
  split at h
  · cases h
  rename_i next hnext
  exact ⟨next, hnext, statement_writes h⟩

/-- **The loop over the declared jobs**: each id keeps its row or is synced, and a loop that ends
    has synced them all. -/
theorem jobStatements_find? {existing : List JobRow} {now : ℕ} {js : List (Text × JobDefinition)}
    (hnodup : (js.map Prod.fst).Nodup)
    (hexisting : ∀ j ∈ js, cell.jobs.find? (jobId manifest.name j.1) =
      existing.find? fun row => decide (row.jobName = j.1)) :
    let run := runScript (js.map (jobStatement host manifest existing now)) cell
    (∀ id, run.2.jobs.find? id = cell.jobs.find? id ∨
      ∃ j ∈ js, id = jobId manifest.name j.1 ∧
        Synced host manifest existing now j (run.2.jobs.find? id)) ∧
    (run.1 = .ok () → ∀ j ∈ js,
      Synced host manifest existing now j (run.2.jobs.find? (jobId manifest.name j.1))) := by
  induction js generalizing cell with
  | nil =>
    intro run
    constructor
    · intro id
      left
      rfl
    · intro _ j hj
      cases hj
  | cons j rest ih =>
    obtain ⟨hfresh, hrest⟩ := List.nodup_cons.mp hnodup
    cases hstatement : jobStatement host manifest existing now j with
    | error e =>
      simp only [List.map_cons, hstatement, runScript]
      exact ⟨fun _ => .inl trivial, fun hok => absurd hok (by simp)⟩
    | ok write =>
      obtain ⟨next, hnext, rfl⟩ := jobStatement_ok hstatement
      simp only [List.map_cons, hstatement, runScript]
      have hother : ∀ j' ∈ rest, jobId manifest.name j.1 ≠ jobId manifest.name j'.1 := by
        intro j' hj' heq
        exact hfresh (List.mem_map.mpr ⟨j', hj', (jobId_jobName_inj heq).symm⟩)
      let own := existing.find? fun row => decide (row.jobName = j.1)
      let written := writeJob (jobRow manifest own now j.1 j.2 next) cell
      -- the turn syncs its own job and leaves the rest of the table
      have hturn : ∀ id, written.jobs.find? id =
          if jobId manifest.name j.1 = id then some (syncedRow manifest own now j next)
          else cell.jobs.find? id := by
        intro id
        rw [find?_writeJob, show (jobRow manifest own now j.1 j.2 next).id =
          jobId manifest.name j.1 from rfl]
        by_cases hid : jobId manifest.name j.1 = id
        · subst hid
          rw [if_pos rfl, if_pos rfl, hexisting j List.mem_cons_self]
          rfl
        · rw [if_neg hid, if_neg hid]
      have hwritten : ∀ j' ∈ rest, written.jobs.find? (jobId manifest.name j'.1) =
          existing.find? fun row => decide (row.jobName = j'.1) := by
        intro j' hj'
        rw [hturn, if_neg (hother j' hj')]
        exact hexisting j' (List.mem_cons_of_mem _ hj')
      obtain ⟨hids, hall⟩ := ih hrest hwritten
      refine ⟨?_, ?_⟩
      · intro id
        rcases hids id with hkept | ⟨j', hj', hid, hsynced⟩
        · rw [hkept, hturn]
          split
          · rename_i hid
            exact .inr ⟨j, List.mem_cons_self, hid.symm, next, hnext, rfl⟩
          · exact .inl rfl
        · exact .inr ⟨j', List.mem_cons_of_mem _ hj', hid, hsynced⟩
      · intro hok j' hj'
        rcases List.mem_cons.mp hj' with rfl | hj'
        · rcases hids (jobId manifest.name j'.1) with hkept | ⟨k, hk, hid, -⟩
          · rw [hkept, hturn, if_pos rfl]
            exact ⟨next, hnext, rfl⟩
          · exact absurd hid (hother k hk)
        · exact hall hok j' hj'

/-- The deletions at the start of the sync. -/
theorem jobDeletions_find? {rows : List JobRow} (id : Text) :
    let run := runScript (rows.map fun row => (.ok fun cell : UserCell =>
      { cell with jobs := cell.jobs.filter fun job => decide (job.id ≠ row.id) } :
        Except Thrown (UserCell → UserCell))) cell
    run.1 = .ok () ∧ run.2.jobs.find? id =
      if id ∈ rows.map JobRow.id then none else cell.jobs.find? id := by
  induction rows generalizing cell with
  | nil =>
    intro run
    exact ⟨rfl, (if_neg List.not_mem_nil).symm⟩
  | cons row rest ih =>
    simp only [List.map_cons, runScript]
    obtain ⟨hok, hfind⟩ := @ih
      { cell with jobs := cell.jobs.filter fun job => decide (job.id ≠ row.id) }
    refine ⟨hok, ?_⟩
    rw [hfind, Rows.find?_filter]
    by_cases hrest : id ∈ rest.map JobRow.id
    · rw [if_pos hrest, if_pos (List.mem_cons_of_mem _ hrest)]
    · rw [if_neg hrest]
      by_cases hid : id = row.id
      · subst hid
        rw [if_pos List.mem_cons_self, Option.filter_eq_none_iff]
        intro job hjob
        rw [(Rows.find?_eq_some.mp hjob).2]
        simp
      · rw [if_neg]
        · refine Option.ext fun job => ?_
          rw [Option.filter_eq_some_iff]
          refine ⟨And.left, fun hjob => ⟨hjob, ?_⟩⟩
          rw [(Rows.find?_eq_some.mp hjob).2]
          exact decide_eq_true hid
        · intro hmem
          rcases List.mem_cons.mp hmem with heq | hmem
          · exact hid heq
          · exact hrest hmem

theorem runScript_append {σ ε : Type} {first rest : List (Except ε (σ → σ))} {s : σ}
    (h : (runScript first s).1 = .ok ()) :
    runScript (first ++ rest) s = runScript rest (runScript first s).2 := by
  induction first generalizing s with
  | nil => rfl
  | cons step first ih =>
    cases step with
    | error e => cases h
    | ok write => exact ih h

/-- **The sync of a save**: each id keeps its row, loses a row that is no longer declared, or is
    synced; and a sync that ends has synced all declared jobs. -/
theorem reconcileJobs_find? {now : ℕ} (hnamed : ∀ row ∈ cell.jobs.rows, Named row)
    (hname : '#' ∉ manifest.name) :
    let run := runScript (reconcileJobs host manifest (existingJobs manifest cell) now) cell
    (∀ id, run.2.jobs.find? id = cell.jobs.find? id ∨
      (run.2.jobs.find? id = none ∧ ∀ j ∈ manifest.jobs.entries, id ≠ jobId manifest.name j.1) ∨
      ∃ j ∈ manifest.jobs.entries, id = jobId manifest.name j.1 ∧
        Synced host manifest (existingJobs manifest cell) now j (run.2.jobs.find? id)) ∧
    (run.1 = .ok () → ∀ j ∈ manifest.jobs.entries,
      Synced host manifest (existingJobs manifest cell) now j
        (run.2.jobs.find? (jobId manifest.name j.1))) := by
  intro run
  let undeclared := (existingJobs manifest cell).filter fun row =>
    decide (row.jobName ∉ manifest.jobs.keys)
  have hdeleted := @jobDeletions_find? cell undeclared
  let mid := (runScript (undeclared.map fun row => (.ok fun cell : UserCell =>
    { cell with jobs := cell.jobs.filter fun job => decide (job.id ≠ row.id) } :
      Except Thrown (UserCell → UserCell))) cell).2
  have hrun : run = runScript (manifest.jobs.entries.map
      (jobStatement host manifest (existingJobs manifest cell) now)) mid :=
    runScript_append (hdeleted []).1
  -- no declared job is among the deleted ones
  have hdeclared : ∀ j ∈ manifest.jobs.entries, jobId manifest.name j.1 ∉ undeclared.map JobRow.id := by
    intro j hj hmem
    obtain ⟨row, hrow, hid⟩ := List.mem_map.mp hmem
    obtain ⟨hexisting, hundeclared⟩ := List.mem_filter.mp hrow
    obtain ⟨hrows, hpackage⟩ := List.mem_filter.mp hexisting
    have hjob : row.jobName = j.1 := by
      apply (jobId_inj (hnamed row hrows).packageName hname _).2
      exact (hnamed row hrows).id.symm.trans hid
    apply of_decide_eq_true hundeclared
    rw [hjob]
    exact List.mem_map.mpr ⟨j, hj, rfl⟩
  have hexisting : ∀ j ∈ manifest.jobs.entries, mid.jobs.find? (jobId manifest.name j.1) =
      (existingJobs manifest cell).find? fun row => decide (row.jobName = j.1) := by
    intro j hj
    rw [existingJobs_find? hnamed hname, (hdeleted _).2, if_neg (hdeclared j hj)]
  obtain ⟨hids, hall⟩ := @jobStatements_find? host manifest mid _ now _ manifest.jobs.nodup hexisting
  rw [hrun]
  refine ⟨?_, hall⟩
  intro id
  rcases hids id with hkept | hsynced
  · rw [hkept, (hdeleted id).2]
    split
    · rename_i hmem
      refine .inr (.inl ⟨rfl, ?_⟩)
      rintro j hj rfl
      exact hdeclared j hj hmem
    · exact .inl rfl
  · exact .inr (.inr hsynced)

end

/-! ### The job rows after a save -/

section
variable {host : Host} {clock : SaveClock} {input : SaveInput} {cell : UserCell}
  {files : PackageFiles} {manifest : PackageManifest}

/-- **What an accepted save leaves under each id**, also when it throws. -/
theorem packageSave_jobs (hnamed : ∀ row ∈ cell.jobs.rows, Named row)
    (h : acceptSave host clock input cell = .ok (files, manifest)) :
    let after := (packageSave host clock input cell).2.jobs
    (∀ id, after.find? id = cell.jobs.find? id ∨
      (after.find? id = none ∧ ∀ j ∈ manifest.jobs.entries, id ≠ jobId manifest.name j.1) ∨
      ∃ j ∈ manifest.jobs.entries, id = jobId manifest.name j.1 ∧
        Synced host manifest (existingJobs manifest cell) clock.now j (after.find? id)) ∧
    ((∃ summary, (packageSave host clock input cell).1 = .ok summary) →
      ∀ j ∈ manifest.jobs.entries,
        Synced host manifest (existingJobs manifest cell) clock.now j
          (after.find? (jobId manifest.name j.1))) := by
  have hjobs := @packageScript_jobs host input cell files manifest clock.now
  unfold packageSave
  simp only [h]
  generalize runScript (packageScript host input files manifest clock.now) cell = run at hjobs ⊢
  obtain ⟨result, mid⟩ := run
  have hjobs : mid.jobs = cell.jobs := hjobs
  have hexisting : existingJobs manifest mid = existingJobs manifest cell := by
    unfold existingJobs
    rw [hjobs]
  cases result with
  | error e =>
    -- a file was not taken, and the jobs were not reached
    refine ⟨?_, fun hok => absurd hok (by simp)⟩
    intro id
    left
    show mid.jobs.find? id = cell.jobs.find? id
    rw [hjobs]
  | ok _ =>
    have hsync := @reconcileJobs_find? host manifest mid clock.now (hjobs ▸ hnamed)
      (mark_notMem_name h)
    rw [hexisting, hjobs] at hsync
    simp only [hexisting]
    generalize runScript (reconcileJobs host manifest (existingJobs manifest cell) clock.now) mid =
      run at hsync ⊢
    obtain ⟨result, last⟩ := run
    cases result with
    | error e => exact ⟨hsync.1, fun hok => absurd hok (by simp)⟩
    | ok _ => exact ⟨hsync.1, fun _ => hsync.2 rfl⟩

end

/-! ### `jobUpdate` and the claim -/

/-- What `jobUpdate` sets in the row of a job. -/
def setEnabled (id : Text) (enabled : Bool) (next : Option ℕ) (now : ℕ) (row : JobRow) : JobRow :=
  if row.id = id then { row with enabled := enabled, nextRunAt := next, updatedAt := now } else row

theorem setEnabled_id (id : Text) (enabled : Bool) (next : Option ℕ) (now : ℕ) (row : JobRow) :
    (setEnabled id enabled next now row).id = row.id := by
  unfold setEnabled
  split
  · rfl
  · rfl

section
variable (engine : Engine)

/-- `jobUpdate`: a job that is enabled gets its next run, one that is disabled has none. -/
def jobUpdate (now : ℕ) (id : Text) (enabled : Option Bool) (jobs : JobTable) :
    Except Thrown (Option JobRow) × JobTable :=
  match jobs.find? id with
  | none => (.error (.kody "job_not_found" ("Job \"" ++ id ++ "\" was not found.") 404), jobs)
  | some job =>
    match enabled with
    | none => (.ok (some job), jobs)
    | some enabled =>
      let next := if enabled then nextRunText engine job.schedule now job.timezone job.lastRunAt
        else .ok none
      match next with
      | .error e => (.error e, jobs)
      | .ok next =>
        let jobs := jobs.map (setEnabled id enabled next now) (setEnabled_id id enabled next now)
        (.ok (jobs.find? id), jobs)

/-- **What `jobUpdate` does to a row**: nothing, or it computes its next run anew, or it disables
    it. -/
theorem jobUpdate_rows {now : ℕ} {id : Text} {enabled : Option Bool} {jobs : JobTable} {row : JobRow}
    (h : row ∈ (jobUpdate engine now id enabled jobs).2.rows) :
    row ∈ jobs.rows ∨ ∃ old ∈ jobs.rows, ∃ enabled next,
      row = { old with enabled := enabled, nextRunAt := next, updatedAt := now } ∧
        (nextRunText engine old.schedule now old.timezone old.lastRunAt = .ok next ∨
          (enabled = false ∧ next = none)) := by
  unfold jobUpdate at h
  split at h
  · exact .inl h
  · rename_i job hfind
    split at h
    · exact .inl h
    · rename_i enabled
      dsimp only at h
      split at h
      · exact .inl h
      · rename_i next hnext
        obtain ⟨old, hold, rfl⟩ := List.mem_map.mp h
        unfold setEnabled
        split
        · rename_i hid
          right
          obtain rfl : old = job := by
            obtain ⟨hjob, hjobId⟩ := Rows.find?_eq_some.mp hfind
            exact List.inj_on_of_nodup_map jobs.nodup hold hjob (hid.trans hjobId.symm)
          refine ⟨old, hold, enabled, next, rfl, ?_⟩
          cases enabled with
          | true => exact .inl hnext
          | false => exact .inr ⟨rfl, (Except.ok.inj hnext).symm⟩
        · exact .inl hold

/-- **What the claim does to a row**, also when it throws: nothing, or it advances it. -/
theorem claimAll_rows {now : ℕ} {due rows : List JobRow} {row : JobRow}
    (h : row ∈ (claimAll engine now due rows).2) :
    row ∈ rows ∨ ∃ job ∈ due, ∃ old ∈ rows, old.id = job.id ∧
      ∃ next, job.claimedNext engine now = .ok next ∧ row = old.advance now next := by
  induction due generalizing rows with
  | nil => exact .inl h
  | cons job due ih =>
    rw [claimAll] at h
    split at h
    · exact .inl h
    · rename_i next hnext
      have hone : ∀ r ∈ rows.map (fun row => if row.id = job.id then row.advance now next else row),
          r ∈ rows ∨ ∃ old ∈ rows, old.id = job.id ∧ r = old.advance now next := by
        intro r hr
        obtain ⟨old, hold, rfl⟩ := List.mem_map.mp hr
        split
        · rename_i hid
          exact .inr ⟨old, hold, hid, rfl⟩
        · exact .inl hold
      rcases ih h with hrow | ⟨job', hjob', r, hr, hid, next', hnext', rfl⟩
      · rcases hone row hrow with hold | ⟨old, hold, hid, rfl⟩
        · exact .inl hold
        · exact .inr ⟨job, List.mem_cons_self, old, hold, hid, next, hnext, rfl⟩
      · right
        rcases hone r hr with hold | ⟨old, hold, hid', rfl⟩
        · exact ⟨job', List.mem_cons_of_mem _ hjob', r, hold, hid, next', hnext', rfl⟩
        · exact ⟨job', List.mem_cons_of_mem _ hjob', old, hold, hid, next', hnext', rfl⟩

theorem claimAll_ids (now : ℕ) (due rows : List JobRow) :
    (claimAll engine now due rows).2.map JobRow.id = rows.map JobRow.id := by
  induction due generalizing rows with
  | nil => rfl
  | cons job due ih =>
    rw [claimAll]
    split
    · rfl
    · rw [ih, List.map_map]
      refine List.map_congr_left fun row _ => ?_
      show JobRow.id (if row.id = job.id then _ else row) = row.id
      split
      · rfl
      · rfl

theorem jobsClaimDue_rows (now : ℕ) (rows : List JobRow) :
    (jobsClaimDue engine now rows).2 = (claimAll engine now (dueJobs now rows) rows).2 := by
  unfold jobsClaimDue
  dsimp only
  split
  · rename_i heq
    rw [heq]
  · rename_i heq
    rw [heq]

/-- The claim on the table. -/
def claimTable (now : ℕ) (jobs : JobTable) : JobTable where
  rows := (jobsClaimDue engine now jobs.rows).2
  nodup := by
    rw [jobsClaimDue_rows, claimAll_ids]
    exact jobs.nodup

end

end KodyCelld.Cells
