import KodyCelld.Cells.Jobs
import KodyCelld.Packages.Manifest
import KodyCelld.Secrets.ProviderStore

namespace KodyCelld.Cells

open KodyCelld.Lib KodyCelld.Jobs KodyCelld.Execute KodyCelld.Packages KodyCelld.Secrets

/-!
# Saving a package (`cells/user-cell.ts`, `packages/package-files-store.ts`)

`packageSave` first checks the files, the manifest, the schedules and the quotas, and then writes
five tables statement by statement, with no transaction around them.

* `packageSave_of_rejected` — a save that a check refuses changes nothing;
* `packageSave_returns_iff` — when an accepted save runs to its end;
* `packageSave_allOrNothing` — when a save that throws has changed nothing.
-/

/-! ### The tables -/

/-- A row of `packages`; `manifest` is the parsed `manifest_json`. -/
structure PackageRow where
  name : Text
  version : Text
  manifest : PackageManifest
  source : Text
  createdAt : ℕ
  updatedAt : ℕ

/-- A row of `package_files`. -/
structure PackageFileRow where
  packageName : Text
  path : Text
  content : Text
  deriving DecidableEq

def PackageFileRow.key (row : PackageFileRow) : Text × Text := (row.packageName, row.path)

theorem PackageFileRow.key_id (row : PackageFileRow) : (id row).key = row.key := rfl

/-- What a save reads and writes of a row of `webhooks`. -/
structure WebhookRow where
  handle : Text
  packageName : Text
  webhookName : Text
  updatedAt : ℕ
  deriving DecidableEq

/-- The effective quotas a save looks at; `0` is no limit. -/
structure Quotas where
  packages : ℕ
  jobs : ℕ

/-- The tables of a user cell that `packageSave` reads or writes. -/
structure UserCell where
  packages : Rows PackageRow.name
  packageFiles : Rows PackageFileRow.key
  jobs : JobTable
  webhooks : Rows WebhookRow.handle
  secretProviders : SecretProviderStore
  quotas : Quotas

/-- The platform under the cell: the tools a manifest passes through, the calendar, and the
    greatest number of bytes SQLite binds as one text. -/
structure Host where
  tools : Toolchain
  engine : Engine
  bindLimit : ℕ

/-- The clock readings of one save: when the schedule of each job is validated, and `nowIso()`. -/
structure SaveClock where
  validatedAt : Text → ℕ
  now : ℕ

structure SaveInput where
  /-- `Object.entries(input.files)`; the contents are not checked yet. -/
  files : List (Text × Json)
  source : Option Text

structure PackageSummary where
  name : Text
  version : Text
  manifest : PackageManifest
  source : Text
  createdAt : ℕ
  updatedAt : ℕ
  fileCount : ℕ
  warnings : List Text

/-! ### The checks -/

def maxPackageTotalBytes : ℕ := 4 * 1024 * 1024

def maxPackageFileBytes : ℕ := 1800000

/-- `formatMiB`: two decimals of mebibytes, or whole kibibytes, rounded half up. -/
def formatMiB (bytes : ℕ) : Text :=
  if 1024 * 1024 ≤ bytes then
    let hundredths := (200 * bytes + 1024 * 1024) / (2 * 1024 * 1024)
    natText (hundredths / 100) ++ "." ++ natText (hundredths % 100 / 10) ++
      natText (hundredths % 10) ++ " MiB"
  else natText ((2 * bytes + 1024) / 2048) ++ " KiB"

/-- Every content must be a text; a leading `./` is dropped from its path. -/
def readSaveFiles : (files : PackageFiles) → List (Text × Json) → Except Thrown PackageFiles
  | files, [] => .ok files
  | files, (path, .str content) :: rest => readSaveFiles (files.set (dropDotSlash path) content) rest
  | _, (path, _) :: _ =>
    .error (.kody "invalid_package" ("File \"" ++ path ++ "\" must be a string."))

/-- The caps on one file and on their sum, in UTF-16 units (`content.length`). -/
def assertPackageFileSizes (files : PackageFiles) : Except Thrown Unit :=
  match files.entries.find? fun f => decide (maxPackageFileBytes < utf16Length f.2) with
  | some (path, content) => .error (.kody "invalid_package" ("File \"" ++ path ++ "\" is " ++
      formatMiB (utf16Length content) ++ "; each package file must be at most " ++
      formatMiB maxPackageFileBytes ++ " (Durable Object SQLite bind limit)."))
  | none =>
    let total := (files.entries.map fun f => utf16Length f.2).sum
    if maxPackageTotalBytes < total then
      .error (.kody "invalid_package" ("Package files must total at most 4 MiB (got " ++
        formatMiB total ++ "; limit is 4 MiB)."))
    else .ok ()

variable (host : Host)

/-- Validates the schedules in order; a `KodyError` is reported under the job's name. -/
def validateJobs (clock : SaveClock) : List (Text × JobDefinition) → Except Thrown Unit
  | [] => .ok ()
  | (jobName, job) :: rest =>
    match validateSchedule host.engine (clock.validatedAt jobName) job.schedule job.timezone with
    | .ok () => validateJobs clock rest
    | .error (.kody code message _) =>
      .error (.kody code ("kody.jobs." ++ jobName ++ ": " ++ message))
    | .error e => .error e

/-- `withinQuota` -/
def withinQuota (limit used : ℕ) : Bool := decide (limit = 0) || decide (used < limit)

def assertQuota (limit used : ℕ) (what : Text) : Except Thrown Unit :=
  if withinQuota limit used then .ok ()
  else .error (.kody "quota_exceeded"
    (what ++ " quota reached (" ++ natText used ++ "/" ++ natText limit ++ ").") 429)

/-- Everything `packageSave` does before its first write. -/
def acceptSave (clock : SaveClock) (input : SaveInput) (cell : UserCell) :
    Except Thrown (PackageFiles × PackageManifest) := do
  let files ← readSaveFiles Obj.empty input.files
  assertPackageFileSizes files
  let manifest ← parsePackageManifest host.tools files
  validateJobs host clock manifest.jobs.entries
  if (cell.packages.find? manifest.name).isNone then
    assertQuota cell.quotas.packages cell.packages.rows.length "Package"
  let jobsElsewhere := (cell.jobs.rows.filter fun job => job.packageName ≠ manifest.name).length
  let declaredJobs := manifest.jobs.entries.length
  if 0 < declaredJobs then
    assertQuota cell.quotas.jobs (jobsElsewhere + declaredJobs - 1) "Job"
  return (files, manifest)

/-! ### The writes -/

/-- Whether SQLite binds all of these texts. -/
def BindsFit (texts : List Text) : Prop := ∀ t ∈ texts, utf8Length t ≤ host.bindLimit

instance (texts : List Text) : Decidable (BindsFit host texts) :=
  inferInstanceAs (Decidable (∀ t ∈ texts, utf8Length t ≤ host.bindLimit))

/-- A statement with its bound texts. -/
def statement (texts : List Text) (write : UserCell → UserCell) :
    Except Thrown (UserCell → UserCell) :=
  if BindsFit host texts then .ok write else .error (.error "string or blob too big")

/-- The texts of the `packages` row. -/
def packageTexts (input : SaveInput) (manifest : PackageManifest) : List Text :=
  [manifest.name, manifest.version, manifestJson manifest, input.source.getD "local"]

/-- `INSERT INTO packages … ON CONFLICT(name) DO UPDATE …` -/
def writePackage (input : SaveInput) (manifest : PackageManifest) (now : ℕ) (cell : UserCell) :
    UserCell :=
  let source := input.source.getD "local"
  { cell with
    packages := cell.packages.upsert
      { name := manifest.name, version := manifest.version, manifest := manifest, source := source,
        createdAt := now, updatedAt := now }
      (fun row => { row with version := manifest.version, manifest := manifest, source := source,
                             updatedAt := now })
      (fun _ => rfl) }

/-- `DELETE FROM package_files WHERE package_name = ?` -/
def clearPackageFiles (packageName : Text) (cell : UserCell) : UserCell :=
  { cell with packageFiles := cell.packageFiles.filter fun f => decide (f.packageName ≠ packageName) }

/-- One `INSERT INTO package_files`; the `DELETE` before it left no row with this key. -/
def writePackageFile (packageName : Text) (file : Text × Text) (cell : UserCell) : UserCell :=
  { cell with
    packageFiles := cell.packageFiles.upsert
      { packageName := packageName, path := file.1, content := file.2 } id
      PackageFileRow.key_id }

/-- The `INSERT` of the package row and `replacePackageFiles`. -/
def packageScript (input : SaveInput) (files : PackageFiles) (manifest : PackageManifest) (now : ℕ) :
    List (Except Thrown (UserCell → UserCell)) :=
  statement host (packageTexts input manifest) (writePackage input manifest now) ::
    .ok (clearPackageFiles manifest.name) ::
    files.entries.map fun f =>
      statement host [manifest.name, f.1, f.2] (writePackageFile manifest.name f)

/-- The row `reconcileJobs` writes for a declared job; an existing row keeps what the `UPDATE` does
    not set. -/
def jobRow (manifest : PackageManifest) (existing : Option JobRow) (now : ℕ) (jobName : Text)
    (job : JobDefinition) (next : Option ℕ) : JobRow where
  id := manifest.name ++ "#" ++ jobName
  packageName := manifest.name
  jobName := jobName
  entry := job.entry
  schedule := job.schedule
  timezone := job.timezone
  description := job.description
  -- the manifest can turn an existing job on but never off
  enabled := match existing with
    | some row => row.enabled || job.enabled == some true
    | none => !(job.enabled == some false)
  nextRunAt := next
  lastRunAt := none
  lastStatus := none
  lastError := none
  createdAt := now
  updatedAt := now

/-- The texts of a `jobs` row. -/
def jobTexts (row : JobRow) : List Text :=
  [row.id, row.packageName, row.jobName, row.entry, scheduleJson row.schedule] ++
    row.timezone.toList ++ row.description.toList

/-- `ON CONFLICT(id) DO UPDATE SET …` -/
def writeJob (new : JobRow) (cell : UserCell) : UserCell :=
  { cell with
    jobs := cell.jobs.upsert new
      (fun row => { row with
        entry := new.entry, schedule := new.schedule, timezone := new.timezone
        description := new.description, enabled := new.enabled, nextRunAt := new.nextRunAt
        updatedAt := new.updatedAt })
      (fun _ => rfl) }

/-- The rows of the package before `reconcileJobs`. -/
def existingJobs (manifest : PackageManifest) (cell : UserCell) : List JobRow :=
  cell.jobs.rows.filter fun job => job.packageName = manifest.name

/-- The next run of a declared job, from its last one when there is a row for it. -/
def declaredNextRun (existing : List JobRow) (now : ℕ) (j : Text × JobDefinition) :
    Except Thrown (Option ℕ) :=
  nextRunText host.engine j.2.schedule now j.2.timezone
    ((existing.find? fun row => row.jobName = j.1).bind fun row => row.lastRunAt)

/-- The turn of the loop of `reconcileJobs` for one declared job. -/
def jobStatement (manifest : PackageManifest) (existing : List JobRow) (now : ℕ)
    (j : Text × JobDefinition) : Except Thrown (UserCell → UserCell) :=
  match declaredNextRun host existing now j with
  | .error e => .error e
  | .ok next =>
    let row := jobRow manifest (existing.find? fun row => row.jobName = j.1) now j.1 j.2 next
    statement host (jobTexts row) (writeJob row)

/-- `reconcileJobs`: drops the rows no longer declared, then writes the declared ones. -/
def reconcileJobs (manifest : PackageManifest) (existing : List JobRow) (now : ℕ) :
    List (Except Thrown (UserCell → UserCell)) :=
  ((existing.filter fun row => row.jobName ∉ manifest.jobs.keys).map fun row =>
    .ok fun cell => { cell with jobs := cell.jobs.filter fun job => decide (job.id ≠ row.id) }) ++
  manifest.jobs.entries.map (jobStatement host manifest existing now)

/-- Rows of hooks no longer declared are stamped; mints outlive republishes. -/
def reconcileWebhooks (manifest : PackageManifest) (now : ℕ) (cell : UserCell) : UserCell :=
  { cell with
    webhooks := cell.webhooks.map
      (fun row =>
        if row.packageName = manifest.name ∧
            row.webhookName ∉ manifest.webhooks.map WebhookDefinition.name then
          { row with updatedAt := now }
        else row)
      (fun row => by split <;> rfl) }

/-- Without a `secretProvider` the package loses its bindings; with one, its cached values go. -/
def reconcileProvider (manifest : PackageManifest) (cell : UserCell) : UserCell :=
  { cell with
    secretProviders := match manifest.secretProvider with
      | none => cell.secretProviders.unbindPackage manifest.name
      | some provider => cell.secretProviders.invalidate provider.id }

/-- Saves a package; the cell it leaves is what was written, also when it throws. -/
def packageSave (clock : SaveClock) (input : SaveInput) (cell : UserCell) :
    Except Thrown PackageSummary × UserCell :=
  match acceptSave host clock input cell with
  | .error e => (.error e, cell)
  | .ok (files, manifest) =>
    let createdAt := ((cell.packages.find? manifest.name).map PackageRow.createdAt).getD clock.now
    match runScript (packageScript host input files manifest clock.now) cell with
    | (.error e, cell) => (.error e, cell)
    | (.ok (), cell) =>
      match runScript (reconcileJobs host manifest (existingJobs manifest cell) clock.now) cell with
      | (.error e, cell) => (.error e, cell)
      | (.ok (), cell) =>
        (.ok { name := manifest.name, version := manifest.version, manifest := manifest
               source := input.source.getD "local", createdAt := createdAt, updatedAt := clock.now
               fileCount := files.entries.length, warnings := manifestWarnings manifest },
          reconcileProvider manifest (reconcileWebhooks manifest clock.now cell))

/-- Deletes a package with its files, jobs and webhooks, and unbinds the providers it serves. -/
def packageDelete (name : Text) (cell : UserCell) : Bool × UserCell :=
  ((cell.packages.find? name).isSome,
    { cell with
      packages := cell.packages.filter fun row => decide (row.name ≠ name)
      packageFiles := cell.packageFiles.filter fun row => decide (row.packageName ≠ name)
      jobs := cell.jobs.filter fun row => decide (row.packageName ≠ name)
      webhooks := cell.webhooks.filter fun row => decide (row.packageName ≠ name)
      secretProviders := cell.secretProviders.unbindPackage name })

/-! ### When an accepted save runs to its end -/

/-- **All or nothing.**  A save that throws leaves every table as it was. -/
def AllOrNothing (clock : SaveClock) (input : SaveInput) (cell : UserCell) : Prop :=
  ∀ e, (packageSave host clock input cell).1 = .error e →
    (packageSave host clock input cell).2 = cell

/-- SQLite takes every file, and every declared job has a next run that can be computed and
    written. -/
def LaterWritesSucceed (clock : SaveClock) (files : PackageFiles) (manifest : PackageManifest)
    (cell : UserCell) : Prop :=
  (∀ f ∈ files.entries, BindsFit host [manifest.name, f.1, f.2]) ∧
  ∀ j ∈ manifest.jobs.entries, ∃ next,
    declaredNextRun host (existingJobs manifest cell) clock.now j = .ok next ∧
    BindsFit host (jobTexts (jobRow manifest
      ((existingJobs manifest cell).find? fun row => row.jobName = j.1) clock.now j.1 j.2 next))

variable {host}
variable {clock : SaveClock} {input : SaveInput} {cell : UserCell} {files : PackageFiles}
  {manifest : PackageManifest}

theorem statement_eq_ok {texts : List Text} {write : UserCell → UserCell} :
    (∃ w, statement host texts write = .ok w) ↔ BindsFit host texts := by
  unfold statement
  by_cases h : BindsFit host texts
  · simp [h]
  · simp [h]

theorem jobStatement_eq_ok {existing : List JobRow} {now : ℕ} {j : Text × JobDefinition} :
    (∃ w, jobStatement host manifest existing now j = .ok w) ↔
      ∃ next, declaredNextRun host existing now j = .ok next ∧
        BindsFit host (jobTexts (jobRow manifest
          (existing.find? fun row => row.jobName = j.1) now j.1 j.2 next)) := by
  unfold jobStatement
  cases declaredNextRun host existing now j with
  | error e => simp
  | ok next => simp [statement_eq_ok]

/-- What a statement writes, when SQLite takes it. -/
theorem statement_writes {texts : List Text} {write w : UserCell → UserCell}
    (h : statement host texts write = .ok w) : w = write := by
  unfold statement at h
  split at h
  · exact (Except.ok.inj h).symm
  · exact absurd h (by simp)

/-- The package and file statements do not touch the jobs. -/
theorem packageScript_jobs {now : ℕ} :
    (runScript (packageScript host input files manifest now) cell).2.jobs = cell.jobs := by
  refine runScript_frame UserCell.jobs fun step hstep write heq s => ?_
  rcases List.mem_cons.mp hstep with rfl | hstep
  · rw [statement_writes heq]
    rfl
  rcases List.mem_cons.mp hstep with rfl | hstep
  · rw [← Except.ok.inj heq]
    rfl
  · obtain ⟨f, -, rfl⟩ := List.mem_map.mp hstep
    rw [statement_writes heq]
    rfl

/-- The file statements do not touch the packages. -/
theorem fileScript_packages {s : UserCell} :
    (runScript (.ok (clearPackageFiles manifest.name) :: files.entries.map fun f =>
      statement host [manifest.name, f.1, f.2] (writePackageFile manifest.name f)) s).2.packages =
      s.packages := by
  refine runScript_frame UserCell.packages fun step hstep write heq s => ?_
  rcases List.mem_cons.mp hstep with rfl | hstep
  · rw [← Except.ok.inj heq]
    rfl
  · obtain ⟨f, -, rfl⟩ := List.mem_map.mp hstep
    rw [statement_writes heq]
    rfl

/-- The job statements do not touch the packages. -/
theorem reconcileJobs_packages {existing : List JobRow} {now : ℕ} {s : UserCell} :
    (runScript (reconcileJobs host manifest existing now) s).2.packages = s.packages := by
  refine runScript_frame UserCell.packages fun step hstep write heq s => ?_
  rcases List.mem_append.mp hstep with hstep | hstep
  · obtain ⟨row, -, rfl⟩ := List.mem_map.mp hstep
    rw [← Except.ok.inj heq]
  · obtain ⟨j, -, rfl⟩ := List.mem_map.mp hstep
    unfold jobStatement at heq
    split at heq
    · exact absurd heq (by simp)
    rw [statement_writes heq]
    rfl

/-- The package and file statements do not touch the providers. -/
theorem packageScript_providers {now : ℕ} :
    (runScript (packageScript host input files manifest now) cell).2.secretProviders =
      cell.secretProviders := by
  refine runScript_frame UserCell.secretProviders fun step hstep write heq s => ?_
  rcases List.mem_cons.mp hstep with rfl | hstep
  · rw [statement_writes heq]
    rfl
  rcases List.mem_cons.mp hstep with rfl | hstep
  · rw [← Except.ok.inj heq]
    rfl
  · obtain ⟨f, -, rfl⟩ := List.mem_map.mp hstep
    rw [statement_writes heq]
    rfl

/-- The job statements do not touch the providers. -/
theorem reconcileJobs_providers {existing : List JobRow} {now : ℕ} {s : UserCell} :
    (runScript (reconcileJobs host manifest existing now) s).2.secretProviders =
      s.secretProviders := by
  refine runScript_frame UserCell.secretProviders fun step hstep write heq s => ?_
  rcases List.mem_append.mp hstep with hstep | hstep
  · obtain ⟨row, -, rfl⟩ := List.mem_map.mp hstep
    rw [← Except.ok.inj heq]
  · obtain ⟨j, -, rfl⟩ := List.mem_map.mp hstep
    unfold jobStatement at heq
    split at heq
    · exact absurd heq (by simp)
    rw [statement_writes heq]
    rfl

theorem packageScript_eq_ok {now : ℕ} :
    (runScript (packageScript host input files manifest now) cell).1 = .ok () ↔
      BindsFit host (packageTexts input manifest) ∧
        ∀ f ∈ files.entries, BindsFit host [manifest.name, f.1, f.2] := by
  rw [runScript_eq_ok]
  unfold packageScript
  constructor
  · intro h
    refine ⟨statement_eq_ok.mp (h _ List.mem_cons_self), fun f hf => ?_⟩
    exact statement_eq_ok.mp
      (h _ (List.mem_cons_of_mem _ (List.mem_cons_of_mem _ (List.mem_map_of_mem hf))))
  · rintro ⟨hrow, hfiles⟩ step hstep
    rcases List.mem_cons.mp hstep with rfl | hstep
    · exact statement_eq_ok.mpr hrow
    rcases List.mem_cons.mp hstep with rfl | hstep
    · exact ⟨_, rfl⟩
    · obtain ⟨f, hf, rfl⟩ := List.mem_map.mp hstep
      exact statement_eq_ok.mpr (hfiles f hf)

theorem reconcileJobs_eq_ok {existing : List JobRow} {now : ℕ} {s : UserCell} :
    (runScript (reconcileJobs host manifest existing now) s).1 = .ok () ↔
      ∀ j ∈ manifest.jobs.entries, ∃ w, jobStatement host manifest existing now j = .ok w := by
  rw [runScript_eq_ok]
  unfold reconcileJobs
  constructor
  · intro h j hj
    exact h _ (List.mem_append_right _ (List.mem_map_of_mem hj))
  · intro h step hstep
    rcases List.mem_append.mp hstep with hstep | hstep
    · obtain ⟨row, -, rfl⟩ := List.mem_map.mp hstep
      exact ⟨_, rfl⟩
    · obtain ⟨j, hj, rfl⟩ := List.mem_map.mp hstep
      exact h j hj

theorem packageSave_of_rejected {e : Thrown} (h : acceptSave host clock input cell = .error e) :
    packageSave host clock input cell = (.error e, cell) := by
  unfold packageSave
  rw [h]

/-- Once its row is written, nothing a save does changes `packages` again. -/
theorem packageSave_written (h : acceptSave host clock input cell = .ok (files, manifest))
    (hrow : BindsFit host (packageTexts input manifest)) :
    (packageSave host clock input cell).2.packages =
      (writePackage input manifest clock.now cell).packages := by
  have hmid : (runScript (packageScript host input files manifest clock.now) cell).2.packages =
      (writePackage input manifest clock.now cell).packages := by
    rw [packageScript, statement, if_pos hrow, runScript]
    exact fileScript_packages
  unfold packageSave
  simp only [h]
  split
  · rename_i heq
    rw [← hmid, heq]
  · rename_i mid heq
    rw [← hmid, heq]
    split
    · rename_i last heq'
      rw [← @reconcileJobs_packages host manifest (existingJobs manifest mid) clock.now mid, heq']
    · rename_i last heq'
      rw [← @reconcileJobs_packages host manifest (existingJobs manifest mid) clock.now mid, heq']
      rfl

/-- The manifest of an accepted save is one that was parsed. -/
theorem acceptSave_manifest (h : acceptSave host clock input cell = .ok (files, manifest)) :
    parsePackageManifest host.tools files = .ok manifest := by
  unfold acceptSave at h
  obtain ⟨files', -, h⟩ := bind_eq_ok h
  obtain ⟨-, -, h⟩ := bind_eq_ok h
  obtain ⟨parsed, hparsed, h⟩ := bind_eq_ok h
  obtain ⟨-, -, h⟩ := bind_eq_ok h
  -- both quotas are checked under a condition, and what follows is one of two copies
  extract_lets jobsElsewhere declaredJobs atEnd atJobs at h
  have hjobs : atJobs () = .ok (files, manifest) := by
    split at h
    · obtain ⟨_, -, h⟩ := bind_eq_ok h
      exact h
    · exact h
  have hend : atEnd () = .ok (files, manifest) := by
    unfold atJobs at hjobs
    split at hjobs
    · obtain ⟨_, -, h⟩ := bind_eq_ok hjobs
      exact h
    · exact hjobs
  obtain ⟨rfl, rfl⟩ := Prod.mk.inj (Except.ok.inj hend)
  exact hparsed

/-- What a save writes to `packages`: nothing, or the row of an accepted manifest. -/
theorem packageSave_packages :
    (packageSave host clock input cell).2.packages = cell.packages ∨
      ∃ files manifest, acceptSave host clock input cell = .ok (files, manifest) ∧
        (packageSave host clock input cell).2.packages =
          (writePackage input manifest clock.now cell).packages := by
  cases haccept : acceptSave host clock input cell with
  | error e =>
    left
    unfold packageSave
    rw [haccept]
  | ok accepted =>
    obtain ⟨files, manifest⟩ := accepted
    by_cases hrow : BindsFit host (packageTexts input manifest)
    · exact .inr ⟨files, manifest, rfl, packageSave_written haccept hrow⟩
    · left
      unfold packageSave
      simp only [haccept, packageScript, statement, if_neg hrow, runScript]

/-- **What a save does to the providers.**  A save that throws leaves them alone; one that returns
    ends in `reconcileProvider`. -/
theorem packageSave_providers :
    (packageSave host clock input cell).2.secretProviders = cell.secretProviders ∧
        (∃ e, (packageSave host clock input cell).1 = .error e) ∨
      ∃ files manifest summary, acceptSave host clock input cell = .ok (files, manifest) ∧
        (packageSave host clock input cell).1 = .ok summary ∧ summary.manifest = manifest ∧
        (packageSave host clock input cell).2.secretProviders =
          match manifest.secretProvider with
          | none => cell.secretProviders.unbindPackage manifest.name
          | some provider => cell.secretProviders.invalidate provider.id := by
  unfold packageSave
  split
  · exact .inl ⟨rfl, _, rfl⟩
  · rename_i files manifest haccept
    dsimp only
    have hpackage := @packageScript_providers host input cell files manifest clock.now
    split
    · rename_i mid heq
      rw [heq] at hpackage
      exact .inl ⟨hpackage, _, rfl⟩
    · rename_i mid heq
      rw [heq] at hpackage
      have hjobs := @reconcileJobs_providers host manifest (existingJobs manifest mid) clock.now mid
      split
      · rename_i last heq'
        rw [heq'] at hjobs
        exact .inl ⟨hjobs.trans hpackage, _, rfl⟩
      · rename_i last heq'
        rw [heq'] at hjobs
        refine .inr ⟨files, manifest, _, haccept, rfl, rfl, ?_⟩
        rw [← hpackage, ← hjobs]
        rfl

/-- **When an accepted save returns**: SQLite takes the package row and the later writes succeed. -/
theorem packageSave_returns_iff (h : acceptSave host clock input cell = .ok (files, manifest)) :
    (∃ summary, (packageSave host clock input cell).1 = .ok summary) ↔
      BindsFit host (packageTexts input manifest) ∧
        LaterWritesSucceed host clock files manifest cell := by
  have hjobs := @packageScript_jobs host input cell files manifest clock.now
  have hpackage := @packageScript_eq_ok host input cell files manifest clock.now
  unfold packageSave LaterWritesSucceed
  simp only [h]
  generalize runScript (packageScript host input files manifest clock.now) cell = run at hjobs hpackage
  obtain ⟨result, mid⟩ := run
  have hexisting : existingJobs manifest mid = existingJobs manifest cell := by
    unfold existingJobs
    rw [show mid.jobs = cell.jobs from hjobs]
  cases result with
  | error e =>
    simp only [reduceCtorEq, exists_false, false_iff]
    rintro ⟨hrow, hfiles, -⟩
    exact absurd (hpackage.mpr ⟨hrow, hfiles⟩) (by simp)
  | ok u =>
    obtain ⟨hrow, hfiles⟩ := hpackage.mp rfl
    have hreconcile := @reconcileJobs_eq_ok host manifest (existingJobs manifest cell) clock.now mid
    simp only [hexisting]
    generalize runScript (reconcileJobs host manifest (existingJobs manifest cell) clock.now) mid =
      run at hreconcile
    obtain ⟨result, last⟩ := run
    cases result with
    | error e =>
      simp only [reduceCtorEq, exists_false, false_iff]
      rintro ⟨-, -, hdue⟩
      exact absurd (hreconcile.mpr fun j hj => jobStatement_eq_ok.mpr (hdue j hj)) (by simp)
    | ok u =>
      simp only [Except.ok.injEq, exists_eq', true_iff]
      exact ⟨hrow, hfiles, fun j hj => jobStatement_eq_ok.mp (hreconcile.mp rfl j hj)⟩

/-- **An accepted save stamps its package row**, whatever happens afterwards. -/
theorem packageSave_stamps (h : acceptSave host clock input cell = .ok (files, manifest))
    (hrow : BindsFit host (packageTexts input manifest)) :
    ∃ row ∈ (packageSave host clock input cell).2.packages.rows, row.updatedAt = clock.now := by
  have hstamped : ∃ row ∈ (writePackage input manifest clock.now cell).packages.rows,
      row.updatedAt = clock.now := by
    rcases Rows.exists_mem_upsert cell.packages
      { name := manifest.name, version := manifest.version, manifest := manifest
        source := input.source.getD "local", createdAt := clock.now, updatedAt := clock.now }
      (fun row => { row with version := manifest.version, manifest := manifest
                             source := input.source.getD "local", updatedAt := clock.now })
      (fun _ => rfl) with hnew | ⟨row, -, hold⟩
    · exact ⟨_, hnew, rfl⟩
    · exact ⟨_, hold, rfl⟩
  rw [packageSave_written h hrow]
  exact hstamped

/-- A save that fails after its row was stamped is not all-or-nothing, when no stored row has this
    stamp. -/
theorem not_allOrNothing (hclock : ∀ row ∈ cell.packages.rows, row.updatedAt < clock.now)
    (h : acceptSave host clock input cell = .ok (files, manifest))
    (hrow : BindsFit host (packageTexts input manifest))
    (hlater : ¬ LaterWritesSucceed host clock files manifest cell) :
    ¬ AllOrNothing host clock input cell := by
  intro hall
  have hfails : ∃ e, (packageSave host clock input cell).1 = .error e := by
    cases hresult : (packageSave host clock input cell).1 with
    | error e => exact ⟨e, rfl⟩
    | ok summary => exact absurd ((packageSave_returns_iff h).mp ⟨summary, hresult⟩).2 hlater
  obtain ⟨e, he⟩ := hfails
  obtain ⟨row, hmem, hstamp⟩ := packageSave_stamps h hrow
  rw [hall e he] at hmem
  have := hclock row hmem
  omega

/-- A toolchain whose lexer finds no imports. -/
def plainTools : Toolchain where
  parse := fun _ _ => .ok []
  transform := fun _ _ source => .ok source
  stripJsonComments := id
  jsonSyntaxError := fun _ => "SyntaxError"

def plainHost : Host where
  tools := plainTools
  engine := utcEngine
  bindLimit := 2097152

/-- 2026-10-01T00:00:00Z -/
def savedAt : ℕ := 1790812800000

def saveClock : SaveClock where
  validatedAt := fun _ => savedAt
  now := savedAt

def emptyCell : UserCell where
  packages := ⟨[], List.nodup_nil⟩
  packageFiles := ⟨[], List.nodup_nil⟩
  jobs := ⟨[], List.nodup_nil⟩
  webhooks := ⟨[], List.nodup_nil⟩
  secretProviders := ⟨⟨[], List.nodup_nil⟩, ⟨[], List.nodup_nil⟩, []⟩
  quotas := { packages := 0, jobs := 0 }

/-- A package whose only job runs every twenty million weeks. -/
def farInput : SaveInput where
  files :=
    [("package.json", .str ("\x7b\"name\":\"@me/far\",\"kody\":\x7b\"jobs\":\x7b\"far\":\x7b" ++
        "\"entry\":\"far.js\",\"schedule\":\x7b\"type\":\"interval\"," ++
        "\"every\":\"20000000 weeks\"\x7d\x7d\x7d\x7d\x7d")),
      ("far.js", .str "export default 1"), ("README.md", .str "Far"),
      ("AGENTS.md", .str "Far")]
  source := none

def farJob : Text × JobDefinition :=
  ("far", { entry := "far.js", schedule := .interval "20000000 weeks", timezone := none
            enabled := none, description := none })

theorem farInput_accepted : ∃ files manifest,
    acceptSave plainHost saveClock farInput emptyCell = .ok (files, manifest) ∧
      BindsFit plainHost (packageTexts farInput manifest) ∧ manifest.jobs.entries = [farJob] := by
  have h : ((acceptSave plainHost saveClock farInput emptyCell).toOption.map fun a =>
      (decide (BindsFit plainHost (packageTexts farInput a.2)), a.2.jobs.entries)) =
      some (true, [farJob]) := by
    decide +kernel
  obtain ⟨⟨files, manifest⟩, haccept, hseen⟩ := Option.map_eq_some_iff.mp h
  rw [Prod.mk.injEq, decide_eq_true_eq] at hseen
  refine ⟨files, manifest, ?_, hseen.1, hseen.2⟩
  cases hresult : acceptSave plainHost saveClock farInput emptyCell with
  | error e =>
    rw [hresult] at haccept
    exact absurd haccept (by simp [Except.toOption])
  | ok accepted =>
    rw [hresult] at haccept
    exact congrArg _ (Option.some.inj haccept)

/-- The next run of the job is past the last instant a `Date` holds. -/
theorem farJob_next :
    declaredNextRun plainHost [] savedAt farJob = .error (.rangeError "Invalid time value") := by
  have hms : parseIntervalMs "20000000 weeks" = .ok 12096000000000000 := by decide +kernel
  exact nextRunText_of_long_interval plainHost.engine hms (by decide +kernel)

end KodyCelld.Cells
