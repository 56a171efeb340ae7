import KodyCelld.Errors

namespace KodyCelld.Jobs

open KodyCelld.Lib

/-!
# Job schedules (`jobs/schedule.ts`)

`parseIntervalMs`, `parseCron`, `nextCronOccurrence`, `validateSchedule` and `computeNextRun`, with
their error texts.  Instants are milliseconds since 1970 (`Date.now()` is never earlier).

`Intl.DateTimeFormat` and `Date.parse` are data of the JavaScript engine (the time-zone database,
its date grammar): they are the two fields of `Engine`.  Every result holds for any of them.

* `cronScan_eq_none` — when the scan of `nextCronOccurrence` finds nothing;
* `computeNextRun_gt` — a computed next run of a job that has run before is later than now.
-/

/-- The zoned fields `formatToParts` prints for an instant. -/
structure ZonedParts where
  minute : ℕ
  hour : ℕ
  day : ℕ
  month : ℕ
  weekday : ℕ
  deriving DecidableEq, Repr

/-- The parts of the JavaScript engine that read calendars. -/
structure Engine where
  /-- `Intl.DateTimeFormat(…, { timeZone })`; `none` for an unknown zone. -/
  zonedParts : Text → ℕ → Option ZonedParts
  /-- `Date.parse`; `none` for `NaN`. -/
  dateParse : Text → Option ℤ

/-- The UTC calendar fields of an instant, from its day since 1970 (the proleptic Gregorian
    calendar, counted in 400-year eras that start on 1 March). -/
def utcParts (t : ℕ) : ZonedParts :=
  let day := t / 86400000
  let z := day + 719468
  let doe := z % 146097
  let yoe := (doe - doe / 1460 + doe / 36524 - doe / 146096) / 365
  let doy := doe - (365 * yoe + yoe / 4 - yoe / 100)
  let mp := (5 * doy + 2) / 153
  { minute := t / 60000 % 60
    hour := t / 3600000 % 24
    day := doy - (153 * mp + 2) / 5 + 1
    month := if mp < 10 then mp + 3 else mp - 9
    weekday := (day + 4) % 7 }

/-- An engine that knows the zone `UTC` and reads no dates. -/
def utcEngine : Engine where
  zonedParts := fun timezone t => if timezone = "UTC" then some (utcParts t) else none
  dateParse := fun _ => none

/-- The last instant a `Date` can hold. -/
def maxTime : ℕ := 8640000000000000

/-- `date.toISOString()`, with the text kept as its instant: an invalid date throws. -/
def toISOString (t : ℕ) : Except Thrown ℕ :=
  if t ≤ maxTime then .ok t else .error (.rangeError "Invalid time value")

/-- The first instant of year 10000, from which `toISOString` writes six-digit years with a
    leading `+`. -/
def year10000 : ℕ := 253402300800000

/-- `a <= b` on the texts `toISOString` prints: `+` sorts before every digit, and within one
    length of year the texts sort like their instants. -/
def isoLe (a b : ℕ) : Bool :=
  if year10000 ≤ a then
    if year10000 ≤ b then decide (a ≤ b) else true
  else
    if year10000 ≤ b then false else decide (a ≤ b)

/-- The text order is the order in time exactly when both years are written alike. -/
theorem isoLe_iff_le (a b : ℕ) :
    (isoLe a b = true ↔ a ≤ b) ↔ (year10000 ≤ a ↔ year10000 ≤ b) := by
  unfold isoLe
  by_cases ha : year10000 ≤ a <;> by_cases hb : year10000 ≤ b
  · simp [ha, hb]
  · have hlt : ¬ a ≤ b := by omega
    simp [ha, hb, hlt]
  · have hle : a ≤ b := by omega
    simp [ha, hb, hle]
  · simp [ha, hb]

inductive JobSchedule where
  | cron (expression : Text)
  | interval (every : Text)
  | once (runAt : Text)
  deriving DecidableEq, Repr

/-! ### Intervals -/

/-- `intervalUnits[unit]`; the object also inherits `constructor`, whose product is `NaN`. -/
def intervalUnits (unit : Text) : Option Lib.Num :=
  let ms : List (Text × ℕ) := [("s", 1000), ("sec", 1000), ("second", 1000), ("seconds", 1000),
    ("m", 60000), ("min", 60000), ("minute", 60000), ("minutes", 60000),
    ("h", 3600000), ("hr", 3600000), ("hour", 3600000), ("hours", 3600000),
    ("d", 86400000), ("day", 86400000), ("days", 86400000),
    ("w", 604800000), ("week", 604800000), ("weeks", 604800000)]
  if unit = "constructor" then some .nan
  else (ms.find? fun p => p.1 = unit).map fun p => .fin p.2

def minimumIntervalMs : ℕ := 60000

/-- The match of `/^\s*(\d+(?:\.\d+)?)\s*([a-z]+)\s*$/i`: the number and the unit. -/
def matchInterval (every : Text) : Option (Text × Text) :=
  let s := every.dropWhile isSpace
  let int := s.takeWhile isDigit
  let s := s.dropWhile isDigit
  let (frac, s) := match s with
    | '.' :: r =>
      if r.takeWhile isDigit = [] then ([], s) else ('.' :: r.takeWhile isDigit, r.dropWhile isDigit)
    | _ => ([], s)
  let s := s.dropWhile isSpace
  let unit := s.takeWhile isLetter
  let rest := (s.dropWhile isLetter).dropWhile isSpace
  if int ≠ [] ∧ unit ≠ [] ∧ rest = [] then some (int ++ frac, unit) else none

/-- The interval in milliseconds; never less than a minute. -/
def parseIntervalMs (every : Text) : Except Thrown ℕ :=
  let malformed : Thrown := .kody "invalid_schedule"
    ("Interval \"" ++ every ++ "\" must look like \"5m\", \"1h\", \"30 minutes\", or \"2 days\".")
  match matchInterval every with
  | none => .error malformed
  | some (number, unit) =>
    match intervalUnits (lower unit) with
    | none => .error malformed
    | some multiplier =>
      match (numberOf number).mul multiplier with
      | .fin ms =>
        if (minimumIntervalMs : ℚ) ≤ ms then .ok ⌊ms + 1 / 2⌋.toNat
        else .error (.kody "invalid_schedule"
          ("Interval \"" ++ every ++ "\" must be at least 1 minute."))
      | _ => .error (.kody "invalid_schedule"
          ("Interval \"" ++ every ++ "\" must be at least 1 minute."))

theorem parseIntervalMs_ge {every : Text} {ms : ℕ} (h : parseIntervalMs every = .ok ms) :
    minimumIntervalMs ≤ ms := by
  unfold parseIntervalMs at h
  split at h
  · exact absurd h (by simp)
  split at h
  · exact absurd h (by simp)
  split at h
  · rename_i q _
    split at h
    · rename_i hq
      rw [Except.ok.injEq] at h
      rw [← h, Int.le_toNat (Int.floor_nonneg.mpr (le_trans (by positivity) (le_trans hq (by norm_num)))),
        Int.le_floor]
      push_cast
      linarith
    · exact absurd h (by simp)
  · exact absurd h (by simp)

theorem parseIntervalMs_pos {every : Text} {ms : ℕ} (h : parseIntervalMs every = .ok ms) : 0 < ms :=
  lt_of_lt_of_le (by decide) (parseIntervalMs_ge h)

/-! ### Cron expressions -/

/-- The fields of a parsed expression, each as the values it lists. -/
structure ParsedCron where
  minute : List ℕ
  hour : List ℕ
  dayOfMonth : List ℕ
  month : List ℕ
  dayOfWeek : List ℕ
  domWildcard : Bool
  dowWildcard : Bool
  deriving DecidableEq, Repr

def monthNames : List Text :=
  ["jan", "feb", "mar", "apr", "may", "jun", "jul", "aug", "sep", "oct", "nov", "dec"]

def dayNames : List Text := ["sun", "mon", "tue", "wed", "thu", "fri", "sat"]

/-- `for (let v = start; v <= end; v += step) values.add(v)`, at most `fuel` turns. -/
def fieldValues (step stop : ℕ) : (fuel v : ℕ) → List ℕ
  | 0, _ => []
  | fuel + 1, v => if v ≤ stop then v :: fieldValues step stop fuel (v + step) else []

section
variable (expression : Text)

def invalidCron (what : Text) : Thrown :=
  .kody "invalid_schedule" ("Cron \"" ++ expression ++ "\" " ++ what)

/-- `toNumber`: a name of the field, or a run of digits. -/
def cronNumber (min : ℕ) (names : List Text) (token : Text) : Except Thrown Lib.Num :=
  let lowered := lower token
  match names.findIdx? (· = lowered.take 3) with
  | some idx =>
    if lowered.length ≤ 3 then .ok (.fin (idx + min : ℕ))
    else if token ≠ [] ∧ token.all isDigit then .ok (numberOf token)
    else .error (invalidCron expression ("has invalid token \"" ++ token ++ "\"."))
  | none =>
    if token ≠ [] ∧ token.all isDigit then .ok (numberOf token)
    else .error (invalidCron expression ("has invalid token \"" ++ token ++ "\"."))

/-- One element of a comma list: `*`, a number or a range, each with an optional step. -/
def parseCronPart (min max : ℕ) (names : List Text) (part : Text) : Except Thrown (List ℕ) := do
  let pieces := part.splitOn '/'
  let rangePart := pieces.headD []
  let stepPart := pieces[1]?
  let step ← match (stepPart.map numberOf).getD (.fin 1) |>.toNat? with
    | some step =>
      if 1 ≤ step then .ok step
      else .error (invalidCron expression
        ("has invalid step \"" ++ stepPart.getD [] ++ "\"."))
    | none => .error (invalidCron expression
        ("has invalid step \"" ++ stepPart.getD [] ++ "\"."))
  let (start, stop) ←
    if rangePart = ['*'] ∨ rangePart = [] then .ok (Num.fin min, Num.fin max)
    else if '-' ∈ rangePart then do
      let ends := rangePart.splitOn '-'
      let a ← cronNumber expression min names (ends.headD [])
      let b ← cronNumber expression min names (ends[1]?.getD [])
      if b.lt a then
        .error (invalidCron expression
          ("range \"" ++ rangePart ++ "\" is descending."))
      else .ok (a, b)
    else do
      let a ← cronNumber expression min names rangePart
      .ok (a, if stepPart.isNone then a else Num.fin max)
  if start.lt (.fin min) || (Num.fin max).lt stop then
    .error (invalidCron expression ("value out of range in \"" ++ part ++ "\" (" ++
      natText min ++ "-" ++ natText max ++ ")."))
  else
    -- a start above the end (`70/2` in a minute field) lists nothing
    match start.toNat?, stop.toNat? with
    | some v, some e => .ok (fieldValues step e (max + 1) v)
    | _, _ => .ok []

def parseCronField (field : Text) (min max : ℕ) (names : List Text) : Except Thrown (List ℕ) := do
  let lists ← (field.splitOn ',').mapM (parseCronPart expression min max names)
  return lists.flatten

end

/-- `dow.replace(/(^|,)7(?=,|$|-)/g, '$10')`: a `7` that opens an element becomes `0`. -/
def sundayAsZero : (opens : Bool) → Text → Text
  | _, [] => []
  | opens, c :: cs =>
    let next := cs.head?
    let c' := if opens && c == '7' && (next == none || next == some ',' || next == some '-')
      then '0' else c
    c' :: sundayAsZero (c == ',') cs

def parseCron (expression : Text) : Except Thrown ParsedCron :=
  match splitSpaces (trim expression) with
  | [minute, hour, dom, month, dow] => do
    let dayOfWeek ← parseCronField expression (sundayAsZero true dow) 0 6 dayNames
    let minutes ← parseCronField expression minute 0 59 []
    let hours ← parseCronField expression hour 0 23 []
    let days ← parseCronField expression dom 1 31 []
    let months ← parseCronField expression month 1 12 monthNames
    return { minute := minutes, hour := hours, dayOfMonth := days, month := months,
             dayOfWeek := dayOfWeek, domWildcard := decide (dom = ['*']),
             dowWildcard := decide (dow = ['*']) }
  | _ => .error (invalidCron expression
      "must have 5 fields (minute hour day-of-month month day-of-week).")

def cronMatches (cron : ParsedCron) (parts : ZonedParts) : Bool :=
  if parts.minute ∉ cron.minute then false
  else if parts.hour ∉ cron.hour then false
  else if parts.month ∉ cron.month then false
  else
    let domOk := decide (parts.day ∈ cron.dayOfMonth)
    let dowOk := decide (parts.weekday ∈ cron.dayOfWeek)
    if cron.domWildcard && cron.dowWildcard then true
    else if cron.domWildcard then dowOk
    else if cron.dowWildcard then domOk
    else domOk || dowOk

variable (engine : Engine)

/-- The zoned fields of an instant; formatting an invalid date throws. -/
def zonedParts (timezone : Text) (t : ℕ) : Except Thrown ZonedParts :=
  match engine.zonedParts timezone t with
  | none => .error (.kody "invalid_schedule" ("Unknown timezone \"" ++ timezone ++ "\"."))
  | some parts => if t ≤ maxTime then .ok parts else .error (.rangeError "Invalid time value")

/-- The scan of `nextCronOccurrence`: minutes `i`, `i + 1`, … after `start`, `n` of them. -/
def cronScan (cron : ParsedCron) (timezone : Text) (start : ℕ) : (i n : ℕ) → Except Thrown (Option ℕ)
  | _, 0 => .ok none
  | i, n + 1 =>
    match zonedParts engine timezone (start + i * 60000) with
    | .error e => .error e
    | .ok parts =>
      if cronMatches cron parts then .ok (some (start + i * 60000))
      else cronScan cron timezone start (i + 1) n

/-- How many minutes the scan looks at: 400 days. -/
def cronLimit : ℕ := 60 * 24 * 400

/-- The first matching minute strictly after `after`. -/
def nextCronOccurrence (expression : Text) (after : ℕ) (timezone : Text) : Except Thrown ℕ :=
  match parseCron expression with
  | .error e => .error e
  | .ok cron =>
    match cronScan engine cron timezone (after / 60000 * 60000) 1 cronLimit with
    | .error e => .error e
    | .ok (some t) => .ok t
    | .ok none => .error (invalidCron expression "never matches within 400 days.")

/-- A scan over minutes none of which matches finds nothing. -/
theorem cronScan_eq_none {cron : ParsedCron} {timezone : Text} {start i n : ℕ}
    (h : ∀ j, i ≤ j → j < i + n →
      ∃ parts, zonedParts engine timezone (start + j * 60000) = .ok parts ∧
        cronMatches cron parts = false) :
    cronScan engine cron timezone start i n = .ok none := by
  induction n generalizing i with
  | zero => rfl
  | succ n ih =>
    obtain ⟨parts, hparts, hno⟩ := h i (le_refl i) (by omega)
    rw [cronScan, hparts]
    simp only [hno]
    exact ih fun j hij hj => h j (by omega) (by omega)

/-- What the scan finds is a minute it looked at. -/
theorem cronScan_gt {cron : ParsedCron} {timezone : Text} {start i n t : ℕ}
    (h : cronScan engine cron timezone start i n = .ok (some t)) :
    ∃ j, i ≤ j ∧ t = start + j * 60000 := by
  induction n generalizing i with
  | zero => exact absurd h (by simp [cronScan])
  | succ n ih =>
    rw [cronScan] at h
    split at h
    · exact absurd h (by simp)
    split at h
    · simp only [Except.ok.injEq, Option.some.injEq] at h
      exact ⟨i, le_refl i, h.symm⟩
    · obtain ⟨j, hij, ht⟩ := ih h
      exact ⟨j, by omega, ht⟩

/-- The next cron occurrence is strictly later. -/
theorem nextCronOccurrence_gt {expression timezone : Text} {after t : ℕ}
    (h : nextCronOccurrence engine expression after timezone = .ok t) : after < t := by
  unfold nextCronOccurrence at h
  split at h
  · exact absurd h (by simp)
  split at h
  · exact absurd h (by simp)
  · rename_i hscan
    rw [Except.ok.injEq] at h
    subst h
    obtain ⟨j, hj, ht⟩ := cronScan_gt engine hscan
    rw [ht]
    have := Nat.div_add_mod after 60000
    have := Nat.mod_lt after (show 60000 > 0 by norm_num)
    omega
  · exact absurd h (by simp)

theorem nextCronOccurrence_of_scan_none {expression timezone : Text} {after : ℕ}
    {cron : ParsedCron} (hparse : parseCron expression = .ok cron)
    (hscan : cronScan engine cron timezone (after / 60000 * 60000) 1 cronLimit = .ok none) :
    nextCronOccurrence engine expression after timezone =
      .error (invalidCron expression "never matches within 400 days.") := by
  unfold nextCronOccurrence
  rw [hparse]
  simp only [hscan]

/-! ### Validation and the next run -/

def validateSchedule (now : ℕ) (schedule : JobSchedule) (timezone : Option Text) :
    Except Thrown Unit :=
  match schedule with
  | .cron expression =>
    match nextCronOccurrence engine expression now (timezone.getD "UTC") with
    | .error e => .error e
    | .ok _ => .ok ()
  | .interval every =>
    match parseIntervalMs every with
    | .error e => .error e
    | .ok _ => .ok ()
  | .once runAt =>
    match engine.dateParse runAt with
    | none => .error (.kody "invalid_schedule" ("runAt \"" ++ runAt ++ "\" is not a valid date."))
    | some _ => .ok ()

/-- `while (next <= now) next += every`.  The sums stay exact up to the first one past `now`;
    beyond 2^53 a rounded sum is past `maxTime` like the exact one. -/
def skipPast (every now next : ℕ) (hevery : 0 < every) : ℕ :=
  if next ≤ now then skipPast every now (next + every) hevery else next
termination_by now + 1 - next

theorem lt_skipPast (every now next : ℕ) (hevery : 0 < every) :
    now < skipPast every now next hevery := by
  induction next using skipPast.induct every now hevery with
  | case1 next hle ih => rw [skipPast, if_pos hle]; exact ih
  | case2 next hgt => rw [skipPast, if_neg hgt]; omega

/-- The next run after `now`; `none` when the job is done.  The `Date` it builds for an interval
    may be invalid, which its `toISOString` shows. -/
def computeNextRun (schedule : JobSchedule) (now : ℕ) (timezone : Option Text)
    (lastRunAt : Option ℕ) : Except Thrown (Option ℕ) :=
  match schedule with
  | .cron expression =>
    match nextCronOccurrence engine expression now (timezone.getD "UTC") with
    | .error e => .error e
    | .ok t => .ok (some t)
  | .interval every =>
    match h : parseIntervalMs every with
    | .error e => .error e
    | .ok ms =>
      .ok (some (skipPast ms now (lastRunAt.getD now + ms)
        (parseIntervalMs_pos h)))
  | .once runAt =>
    match lastRunAt with
    | some _ => .ok none
    | none =>
      match engine.dateParse runAt with
      -- `NaN <= now` is false: the invalid date itself, kept as an instant no `Date` holds
      | none => .ok (some (maxTime + 1))
      | some t => .ok (some (if t ≤ (now : ℤ) then now else t.toNat))

/-- `computeNextRun(…)?.toISOString() ?? null`, as both writers of `next_run_at` use it. -/
def nextRunText (schedule : JobSchedule) (now : ℕ) (timezone : Option Text)
    (lastRunAt : Option ℕ) : Except Thrown (Option ℕ) :=
  match computeNextRun engine schedule now timezone lastRunAt with
  | .error e => .error e
  | .ok none => .ok none
  | .ok (some t) =>
    match toISOString t with
    | .error e => .error e
    | .ok t => .ok (some t)

theorem nextRunText_of_cron_error {expression : Text} {now : ℕ} {timezone : Option Text}
    {lastRunAt : Option ℕ} {e : Thrown}
    (h : nextCronOccurrence engine expression now (timezone.getD "UTC") = .error e) :
    nextRunText engine (.cron expression) now timezone lastRunAt = .error e := by
  unfold nextRunText computeNextRun
  simp only [h]

/-- The first run of an interval that reaches past the last instant of a `Date` has no text. -/
theorem nextRunText_of_long_interval {every : Text} {now ms : ℕ} {timezone : Option Text}
    (h : parseIntervalMs every = .ok ms) (hlate : maxTime < now + ms) :
    nextRunText engine (.interval every) now timezone none =
      .error (.rangeError "Invalid time value") := by
  have hpos : 0 < ms := parseIntervalMs_pos h
  have hnext : computeNextRun engine (.interval every) now timezone none = .ok (some (now + ms)) := by
    simp only [computeNextRun]
    split
    · rename_i e he
      exact absurd (h ▸ he) (by simp)
    · rename_i ms' hms'
      obtain rfl : ms' = ms := Except.ok.inj (hms' ▸ h)
      rw [Option.getD_none, skipPast, if_neg (by omega)]
  unfold nextRunText
  rw [hnext]
  simp only [toISOString, if_neg (Nat.not_le.mpr hlate)]

/-- **A job that has run is not due again at once.**  Its next run, when there is one, is later
    than now. -/
theorem computeNextRun_gt {schedule : JobSchedule} {now last t : ℕ} {timezone : Option Text}
    (h : computeNextRun engine schedule now timezone (some last) = .ok (some t)) : now < t := by
  cases schedule with
  | cron expression =>
    simp only [computeNextRun] at h
    split at h
    · exact absurd h (by simp)
    rename_i next hnext
    rw [Except.ok.injEq, Option.some.injEq] at h
    exact h ▸ nextCronOccurrence_gt engine hnext
  | interval every =>
    simp only [computeNextRun] at h
    split at h
    · exact absurd h (by simp)
    rw [Except.ok.injEq, Option.some.injEq] at h
    exact h ▸ lt_skipPast ..
  | once runAt => exact absurd h (by simp [computeNextRun])

end KodyCelld.Jobs
