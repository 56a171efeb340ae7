import KodyCelld.Jobs.Schedule
import Mathlib.Order.Bounds.Basic
import Mathlib.Order.Interval.Set.Defs

namespace KodyCelld.Jobs.Dates

open KodyCelld.Lib

/-!
# Schedules over every `Date` (`jobs/schedule.ts`)

`Jobs.Schedule` counts instants from 1970, as every caller in the repository does.  Here
`nextCronOccurrence` and `computeNextRun` take every `Date`: before 1970 too, up to the last one,
and the invalid one.

* `nextCronOccurrence_isLeast` — a returned occurrence is the first later minute that fires;
* `nextCronOccurrence_fails_iff` — it fails exactly when no minute of 400 days fires;
* `computeNextRun_interval` — an interval's next run is the first later point of its grid;
* `nextCronOccurrence_stable` — an occurrence stays the next one until it comes;
* `computeNextRun_engine` — from 1970 on this is the schedule of `Jobs.Schedule`.
-/

/-- The time values a `Date` can hold, in milliseconds around 1970. -/
abbrev Instant := Set.Icc (-(maxTime : ℤ)) maxTime

/-- A `Date`; `none` is an invalid one. -/
abbrev Date := Option Instant

/-- `new Date(ms)`: a time value out of range makes an invalid date. -/
def newDate (ms : ℤ) : Date :=
  if h : -(maxTime : ℤ) ≤ ms ∧ ms ≤ maxTime then some ⟨ms, h⟩ else none

theorem newDate_of_mem {ms : ℤ} (h : -(maxTime : ℤ) ≤ ms ∧ ms ≤ maxTime) :
    newDate ms = some ⟨ms, h⟩ :=
  dif_pos h

theorem newDate_eq_some {ms : ℤ} {t : Instant} : newDate ms = some t ↔ ms = t.1 := by
  constructor
  · intro h
    unfold newDate at h
    split at h
    · rw [Option.some.injEq] at h
      rw [← h]
    · exact absurd h (by simp)
  · rintro rfl
    exact newDate_of_mem t.2

/-- What `formatToParts` prints for an instant, its numbers read; a part may be missing. -/
structure PrintedParts where
  minute : ℕ
  hour : ℕ
  day : ℕ
  month : ℕ
  weekday : Option Text

/-- The fields `zonedParts` makes of the printed parts.  A weekday that is no name has index `-1`,
    which no field lists; here it is 7, which none lists either. -/
def PrintedParts.read (parts : PrintedParts) : ZonedParts where
  minute := parts.minute
  -- some engines print midnight as 24
  hour := parts.hour % 24
  day := parts.day
  month := parts.month
  weekday := dayNames.findIdx (· = (lower (parts.weekday.getD "sun")).take 3)

/-- The parts of the JavaScript engine that read calendars, for every `Date`. -/
structure Calendar where
  /-- `new Intl.DateTimeFormat('en-US', { timeZone, … })`: it throws on an unknown zone, and a
      known zone prints a function of the instant. -/
  intl : Text → Option (Instant → PrintedParts)
  /-- `new Date(text)`. -/
  parseDate : Text → Date

variable (calendar : Calendar)

/-- The zoned fields of a date; `formatToParts` throws on an invalid one. -/
def zonedParts (date : Date) (timezone : Text) : Except Thrown ZonedParts :=
  match calendar.intl timezone with
  | none => .error (.kody "invalid_schedule" ("Unknown timezone \"" ++ timezone ++ "\"."))
  | some format =>
    match date with
    | none => .error (.rangeError "Invalid time value")
    | some t => .ok (format t).read

/-- `new Date(start.getTime() + i * 60_000)`. -/
def candidate (start : Date) (i : ℕ) : Date :=
  match start with
  | none => none
  | some s => newDate (s.1 + i * 60000)

/-- The loop of `nextCronOccurrence` from its turn `i`, `n` turns long. -/
def cronScan (cron : ParsedCron) (timezone : Text) (start : Date) :
    (i n : ℕ) → Except Thrown (Option Date)
  | _, 0 => .ok none
  | i, n + 1 =>
    match zonedParts calendar (candidate start i) timezone with
    | .error e => .error e
    | .ok parts =>
      if cronMatches cron parts then .ok (some (candidate start i))
      else cronScan cron timezone start (i + 1) n

/-- `start.setUTCSeconds(0, 0)`: the date cut down to its minute. -/
def setUTCSecondsZero (date : Date) : Date :=
  match date with
  | none => none
  | some t => newDate (t.1 / 60000 * 60000)

/-- The next cron occurrence strictly after `after`. -/
def nextCronOccurrence (expression : Text) (after : Date) (timezone : Text) :
    Except Thrown Date :=
  match parseCron expression with
  | .error e => .error e
  | .ok cron =>
    match cronScan calendar cron timezone (setUTCSecondsZero after) 1 cronLimit with
    | .error e => .error e
    | .ok (some date) => .ok date
    | .ok none => .error (invalidCron expression "never matches within 400 days.")

/-- `while (next <= now) next += every`. -/
def skipPast (every : ℕ) (hevery : 0 < every) (now next : ℤ) : ℤ :=
  if next ≤ now then skipPast every hevery now (next + every) else next
termination_by (now + 1 - next).toNat

/-- `next` after the loop of an interval, as a date.  A comparison with an invalid date is false.
    The sums of the loop are exact up to 2^53, and past that both the rounded and the exact one are
    no time value of a `Date`. -/
def intervalDate (every : ℕ) (hevery : 0 < every) (anchor now : Date) : Date :=
  match anchor, now with
  | none, _ => none
  | some a, none => newDate (a.1 + every)
  | some a, some n => newDate (skipPast every hevery n.1 (a.1 + every))

/-- The next run after `now`; `none` when the job is done. -/
def computeNextRun (schedule : JobSchedule) (now : Date) (timezone : Option Text)
    (lastRunAt : Option Date) : Except Thrown (Option Date) :=
  match schedule with
  | .cron expression =>
    match nextCronOccurrence calendar expression now (timezone.getD "UTC") with
    | .error e => .error e
    | .ok date => .ok (some date)
  | .interval every =>
    match h : parseIntervalMs every with
    | .error e => .error e
    | .ok ms =>
      .ok (some (intervalDate ms (parseIntervalMs_pos h)
        (lastRunAt.getD now) now))
  | .once runAt =>
    match lastRunAt with
    | some _ => .ok none
    | none =>
      match calendar.parseDate runAt, now with
      | some t, some n => .ok (some (some (if t.1 ≤ n.1 then n else t)))
      -- `NaN` is not at most anything, and nothing is at most it
      | runAtDate, _ => .ok (some runAtDate)

/-! ### What an expression asks for -/

/-- **The meaning of an expression.**  Minute, hour and month are listed; of two restricted day
    fields one that lists the day is enough, and a single restricted one has to list it. -/
structure Fires (cron : ParsedCron) (parts : ZonedParts) : Prop where
  minute : parts.minute ∈ cron.minute
  hour : parts.hour ∈ cron.hour
  month : parts.month ∈ cron.month
  day : if cron.domWildcard = false ∧ cron.dowWildcard = false then
      parts.day ∈ cron.dayOfMonth ∨ parts.weekday ∈ cron.dayOfWeek
    else
      (cron.domWildcard = false → parts.day ∈ cron.dayOfMonth) ∧
        (cron.dowWildcard = false → parts.weekday ∈ cron.dayOfWeek)

theorem cronMatches_iff {cron : ParsedCron} {parts : ZonedParts} :
    cronMatches cron parts = true ↔ Fires cron parts := by
  unfold cronMatches
  by_cases hminute : parts.minute ∈ cron.minute
  case neg => simp only [hminute, not_false_eq_true, if_true, Bool.false_eq_true, false_iff]
              exact fun h => hminute h.minute
  by_cases hhour : parts.hour ∈ cron.hour
  case neg => simp only [hminute, hhour, not_true_eq_false, not_false_eq_true, if_true, if_false,
                Bool.false_eq_true, false_iff]
              exact fun h => hhour h.hour
  by_cases hmonth : parts.month ∈ cron.month
  case neg => simp only [hminute, hhour, hmonth, not_true_eq_false, not_false_eq_true, if_true,
                if_false, Bool.false_eq_true, false_iff]
              exact fun h => hmonth h.month
  simp only [hminute, hhour, hmonth, not_true_eq_false, if_false]
  -- the four ways in which the two day fields are wildcards
  constructor
  · intro h
    refine ⟨hminute, hhour, hmonth, ?_⟩
    cases hdom : cron.domWildcard <;> cases hdow : cron.dowWildcard <;> simp_all
  · rintro ⟨-, -, -, h⟩
    cases hdom : cron.domWildcard <;> cases hdow : cron.dowWildcard <;> simp_all

/-- A whole minute whose zoned fields the expression asks for. -/
def IsOccurrence (expression timezone : Text) (t : Instant) : Prop :=
  t.1 % 60000 = 0 ∧ ∃ cron parts, parseCron expression = .ok cron ∧
    zonedParts calendar (some t) timezone = .ok parts ∧ Fires cron parts

/-! ### The scan -/

variable {calendar}

/-- The zoned fields of some date exist in a known zone and of a valid date only. -/
theorem zonedParts_ok {date : Date} {timezone : Text} {parts : ZonedParts}
    (h : zonedParts calendar date timezone = .ok parts) : ∃ t, date = some t := by
  unfold zonedParts at h
  cases date with
  | some t => exact ⟨t, rfl⟩
  | none =>
    split at h
    · exact absurd h (by simp)
    · exact absurd h (by simp)

/-- Once a candidate is out of range, so are the later ones. -/
theorem candidate_none {start : Instant} {i j : ℕ} (h : candidate (some start) i = none)
    (hij : i ≤ j) : candidate (some start) j = none := by
  have hlow := start.2.1
  have hout : ¬ (-(maxTime : ℤ) ≤ start.1 + i * 60000 ∧ start.1 + i * 60000 ≤ maxTime) := by
    intro hmem
    exact absurd h (by simp [candidate, newDate_of_mem hmem])
  refine dif_neg fun hmem => hout ⟨by omega, by omega⟩

theorem zonedParts_error {t : Instant} {timezone : Text} {e : Thrown}
    (h : zonedParts calendar (some t) timezone = .error e) : calendar.intl timezone = none := by
  unfold zonedParts at h
  cases hintl : calendar.intl timezone with
  | none => rfl
  | some format => simp only [hintl] at h; exact absurd h (by simp)

/-- **What the scan finds** is a candidate that fires, and none before it does. -/
theorem cronScan_found {cron : ParsedCron} {timezone : Text} {start : Date} {i n : ℕ}
    {date : Date} (h : cronScan calendar cron timezone start i n = .ok (some date)) :
    ∃ j t parts, i ≤ j ∧ j < i + n ∧ date = some t ∧ candidate start j = some t ∧
      zonedParts calendar (some t) timezone = .ok parts ∧ Fires cron parts ∧
      ∀ k, i ≤ k → k < j → ∃ parts, zonedParts calendar (candidate start k) timezone = .ok parts ∧
        ¬ Fires cron parts := by
  induction n generalizing i with
  | zero => exact absurd h (by simp [cronScan])
  | succ n ih =>
    rw [cronScan] at h
    split at h
    · exact absurd h (by simp)
    · rename_i parts hparts
      split at h
      · rename_i hmatch
        obtain ⟨t, ht⟩ := zonedParts_ok hparts
        obtain rfl : candidate start i = date := by simpa using h
        exact ⟨i, t, parts, le_refl i, by omega, ht, ht, ht ▸ hparts, cronMatches_iff.mp hmatch,
          fun k hik hki => absurd hki (by omega)⟩
      · rename_i hno
        obtain ⟨j, t, parts', hij, hj, hdate, ht, hfields, hfires, hbefore⟩ := ih h
        refine ⟨j, t, parts', by omega, by omega, hdate, ht, hfields, hfires, fun k hik hkj => ?_⟩
        rcases Nat.eq_or_lt_of_le hik with rfl | hlt
        · exact ⟨parts, hparts, fun hf => hno (cronMatches_iff.mpr hf)⟩
        · exact hbefore k hlt hkj

/-- **What the scan misses.**  When it finds nothing, or stops at an error, no candidate fires. -/
theorem cronScan_missed {cron : ParsedCron} {timezone : Text} {start : Instant} {i n : ℕ}
    (h : ∀ date, cronScan calendar cron timezone (some start) i n ≠ .ok (some date)) {j : ℕ}
    (hij : i ≤ j) (hj : j < i + n) {t : Instant} (ht : candidate (some start) j = some t)
    {parts : ZonedParts} (hparts : zonedParts calendar (some t) timezone = .ok parts) :
    ¬ Fires cron parts := by
  induction n generalizing i with
  | zero => omega
  | succ n ih =>
    rw [cronScan] at h
    cases hfirst : candidate (some start) i with
    | none =>
      -- the scan is past the last `Date`, and so is candidate `j`
      rw [candidate_none hfirst hij] at ht
      exact absurd ht (by simp)
    | some first =>
      rw [hfirst] at h
      cases hfields : zonedParts calendar (some first) timezone with
      | error e =>
        -- an unknown zone has no fields at any instant
        have hzone := zonedParts_error hfields
        simp only [zonedParts, hzone] at hparts
        exact absurd hparts (by simp)
      | ok fields =>
        rw [hfields] at h
        by_cases hmatch : cronMatches cron fields = true
        · simp only [hmatch, if_true] at h
          exact absurd rfl (h _)
        · simp only [hmatch] at h
          rcases Nat.eq_or_lt_of_le hij with rfl | hlt
          · rw [hfirst, Option.some.injEq] at ht
            subst ht
            obtain rfl : fields = parts := by simpa using hfields.symm.trans hparts
            exact fun hf => hmatch (cronMatches_iff.mpr hf)
          · exact ih h hlt (by omega)

/-! ### Occurrences -/

/-- A valid date cut down to its minute is valid. -/
theorem setUTCSecondsZero_some (t : Instant) :
    ∃ start : Instant, setUTCSecondsZero (some t) = some start ∧ start.1 = t.1 / 60000 * 60000 := by
  have hmax : (maxTime : ℤ) = 144000000000 * 60000 := by decide
  obtain ⟨ms, hlow, hhigh⟩ := t
  have hmem : -(maxTime : ℤ) ≤ ms / 60000 * 60000 ∧ ms / 60000 * 60000 ≤ maxTime := by
    have := Int.mul_ediv_add_emod ms 60000
    have := Int.emod_nonneg ms (show (60000 : ℤ) ≠ 0 by decide)
    have := Int.emod_lt_of_pos ms (show (0 : ℤ) < 60000 by decide)
    omega
  exact ⟨⟨_, hmem⟩, newDate_of_mem hmem, rfl⟩

/-- The later whole minutes are the candidates: the first is turn 1, and those of the next 400
    days are the turns of the loop. -/
theorem candidate_of_minute {after start m : Instant} (hstart : start.1 = after.1 / 60000 * 60000)
    (hminute : m.1 % 60000 = 0) (hafter : after < m) :
    ∃ j : ℕ, 1 ≤ j ∧ candidate (some start) j = some m ∧
      (m.1 ≤ after.1 + 34560000000 → j < 1 + cronLimit) := by
  have hlt : after.1 < m.1 := hafter
  have hj : m.1 = start.1 + ((m.1 - start.1) / 60000).toNat * 60000 := by omega
  refine ⟨((m.1 - start.1) / 60000).toNat, by omega, newDate_eq_some.mpr hj.symm, ?_⟩
  intro hnear
  have hlimit : cronLimit = 576000 := rfl
  omega

/-- **The occurrence that is returned** is the least whole minute after `after` whose zoned fields
    the expression asks for. -/
theorem nextCronOccurrence_isLeast {expression timezone : Text} {after : Instant} {date : Date}
    (h : nextCronOccurrence calendar expression (some after) timezone = .ok date) :
    ∃ t : Instant, date = some t ∧
      IsLeast {m | IsOccurrence calendar expression timezone m ∧ after < m} t := by
  unfold nextCronOccurrence at h
  split at h
  · exact absurd h (by simp)
  rename_i cron hparse
  split at h
  · exact absurd h (by simp)
  rotate_left
  · exact absurd h (by simp)
  rename_i found hscan
  obtain rfl : found = date := by simpa using h
  obtain ⟨start, hcut, hstart⟩ := setUTCSecondsZero_some after
  rw [hcut] at hscan
  obtain ⟨j, t, parts, hj, -, rfl, ht, hfields, hfires, hbefore⟩ := cronScan_found hscan
  have htime : start.1 + j * 60000 = t.1 := newDate_eq_some.mp ht
  refine ⟨t, rfl, ⟨⟨⟨by omega, cron, parts, hparse, hfields, hfires⟩, ?_⟩, ?_⟩⟩
  · show after.1 < t.1
    omega
  · rintro m ⟨⟨hminute, cron', parts', hparse', hfields', hfires'⟩, hm⟩
    obtain rfl : cron = cron' := by simpa using hparse.symm.trans hparse'
    obtain ⟨k, hk, hcand, -⟩ := candidate_of_minute hstart hminute hm
    have hmtime : start.1 + k * 60000 = m.1 := newDate_eq_some.mp hcand
    show t.1 ≤ m.1
    by_contra hlt
    -- an earlier minute is an earlier candidate, which the scan has seen not to fire
    obtain ⟨seen, hseen, hno⟩ := hbefore k hk (by omega)
    rw [hcand] at hseen
    obtain rfl : seen = parts' := by simpa using hseen.symm.trans hfields'
    exact hno hfires'

/-- **When there is none.**  The search fails exactly when no minute of the next 400 days fires:
    the expression or the zone may be the reason, or the last `Date` may come first. -/
theorem nextCronOccurrence_fails_iff {expression timezone : Text} {after : Instant} :
    (∃ e, nextCronOccurrence calendar expression (some after) timezone = .error e) ↔
      ¬ ∃ m : Instant, IsOccurrence calendar expression timezone m ∧ after < m ∧
        m.1 ≤ after.1 + 34560000000 := by
  obtain ⟨start, hcut, hstart⟩ := setUTCSecondsZero_some after
  constructor
  · rintro ⟨e, he⟩ ⟨m, ⟨hminute, cron, parts, hparse, hfields, hfires⟩, hm, hnear⟩
    obtain ⟨j, hj, hcand, hbound⟩ := candidate_of_minute hstart hminute hm
    have hmissed : ∀ date, cronScan calendar cron timezone (some start) 1 cronLimit ≠
        .ok (some date) := by
      intro date hscan
      simp only [nextCronOccurrence, hparse, hcut, hscan] at he
      exact absurd he (by simp)
    exact cronScan_missed hmissed hj (hbound hnear) hcand hfields hfires
  · intro hnone
    cases hnext : nextCronOccurrence calendar expression (some after) timezone with
    | error e => exact ⟨e, rfl⟩
    | ok date =>
      exfalso
      obtain ⟨t, rfl, ⟨hocc, hlt⟩, hleast⟩ := nextCronOccurrence_isLeast hnext
      -- what the loop returns is within its turns
      refine hnone ⟨t, hocc, hlt, ?_⟩
      unfold nextCronOccurrence at hnext
      split at hnext
      · exact absurd hnext (by simp)
      split at hnext
      · exact absurd hnext (by simp)
      · rename_i hscan
        rw [Except.ok.injEq] at hnext
        subst hnext
        rw [hcut] at hscan
        obtain ⟨j, t', -, -, hj, hsome, ht, -, -, -⟩ := cronScan_found hscan
        obtain rfl : t = t' := by simpa using hsome
        have htime : start.1 + j * 60000 = t.1 := newDate_eq_some.mp ht
        have hlimit : cronLimit = 576000 := rfl
        omega
      · exact absurd hnext (by simp)

/-! ### Intervals -/

/-- **The grid of an interval.**  The loop stops at the first point of the grid that is later than
    `now`, wherever the anchor lies. -/
theorem skipPast_isLeast (every : ℕ) (hevery : 0 < every) (now first : ℤ) :
    IsLeast {next | now < next ∧ ∃ k : ℕ, next = first + k * every}
      (skipPast every hevery now first) := by
  induction first using skipPast.induct every hevery now with
  | case1 first hle ih =>
    rw [skipPast, if_pos hle]
    obtain ⟨⟨hlt, k, hk⟩, hleast⟩ := ih
    refine ⟨⟨hlt, k + 1, ?_⟩, ?_⟩
    · rw [hk]
      push_cast
      ring
    · rintro next ⟨hnext, k, rfl⟩
      cases k with
      | zero => simp only [Nat.cast_zero, zero_mul, add_zero] at hnext; omega
      | succ k =>
        refine hleast ⟨hnext, k, ?_⟩
        push_cast
        ring
  | case2 first hgt =>
    rw [skipPast, if_neg hgt]
    refine ⟨⟨by omega, 0, by simp⟩, ?_⟩
    rintro next ⟨-, k, rfl⟩
    have : 0 ≤ (k : ℤ) * every := by positivity
    omega

/-- **An interval's next run** is the date of the first `anchor + k * every`, `k ≥ 1`, that is
    later than `now`. -/
theorem computeNextRun_interval {every : Text} {ms : ℕ} (hms : parseIntervalMs every = .ok ms)
    (anchor now : Instant) (timezone : Option Text) :
    ∃ next : ℤ, IsLeast {next | now.1 < next ∧ ∃ k : ℕ, 1 ≤ k ∧ next = anchor.1 + k * ms} next ∧
      ∀ lastRunAt : Option Date, lastRunAt.getD (some now) = some anchor →
        computeNextRun calendar (.interval every) (some now) timezone lastRunAt =
          .ok (some (newDate next)) := by
  have hpos : 0 < ms := parseIntervalMs_pos hms
  have hgrid : {next : ℤ | now.1 < next ∧ ∃ k : ℕ, 1 ≤ k ∧ next = anchor.1 + k * ms} =
      {next | now.1 < next ∧ ∃ k : ℕ, next = anchor.1 + ms + k * ms} := by
    ext next
    constructor
    · rintro ⟨hnow, k, hk, rfl⟩
      obtain ⟨k, rfl⟩ : ∃ i, k = i + 1 := ⟨k - 1, by omega⟩
      exact ⟨hnow, k, by push_cast; ring⟩
    · rintro ⟨hnow, k, rfl⟩
      exact ⟨hnow, k + 1, by omega, by push_cast; ring⟩
  refine ⟨skipPast ms hpos now.1 (anchor.1 + ms), hgrid ▸ skipPast_isLeast .., ?_⟩
  intro lastRunAt hanchor
  simp only [computeNextRun, hanchor]
  split
  · rename_i e he
    exact absurd (hms ▸ he) (by simp)
  · rename_i ms' hms'
    obtain rfl : ms' = ms := Except.ok.inj (hms' ▸ hms)
    rfl

/-! ### Instants from 1970 on -/

/-- The engine of `Jobs.Schedule` that a calendar gives.  That model asks for the zone before it
    looks at the range of the instant, so an instant past the last `Date` gets some fields. -/
def Calendar.engine (calendar : Calendar) : Engine where
  zonedParts := fun timezone t => (calendar.intl timezone).map fun format =>
    match newDate t with
    | some t => (format t).read
    | none => ⟨0, 0, 0, 0, 0⟩
  dateParse := fun text => (calendar.parseDate text).map (·.1)

theorem newDate_of_le {t : ℕ} (h : t ≤ maxTime) :
    ∃ instant : Instant, newDate t = some instant ∧ instant.1 = t := by
  have hmem : -(maxTime : ℤ) ≤ t ∧ (t : ℤ) ≤ maxTime := by omega
  exact ⟨⟨t, hmem⟩, newDate_of_mem hmem, rfl⟩

theorem newDate_of_gt {t : ℕ} (h : maxTime < t) : newDate t = none :=
  dif_neg fun hmem => by omega

theorem zonedParts_engine (timezone : Text) (t : ℕ) :
    Jobs.zonedParts calendar.engine timezone t = zonedParts calendar (newDate t) timezone := by
  unfold Jobs.zonedParts zonedParts
  cases hintl : calendar.intl timezone with
  | none => simp only [Calendar.engine, hintl, Option.map_none]
  | some format =>
    simp only [Calendar.engine, hintl, Option.map_some]
    by_cases hle : t ≤ maxTime
    · obtain ⟨instant, hdate, -⟩ := newDate_of_le hle
      simp only [hdate, hle, if_true]
    · simp only [newDate_of_gt (Nat.lt_of_not_le hle), hle, if_false]

/-- The two scans walk over the same dates. -/
theorem cronScan_engine (cron : ParsedCron) (timezone : Text) {start : ℕ} {date : Instant}
    (hstart : date.1 = start) (i n : ℕ) :
    cronScan calendar cron timezone (some date) i n =
      (Jobs.cronScan calendar.engine cron timezone start i n).map
        (Option.map fun t : ℕ => newDate t) := by
  have hcand : ∀ j : ℕ, candidate (some date) j = newDate ((start + j * 60000 : ℕ) : ℤ) := by
    intro j
    show newDate (date.1 + j * 60000) = _
    rw [hstart]
    push_cast
    rfl
  induction n generalizing i with
  | zero => rfl
  | succ n ih =>
    rw [cronScan, Jobs.cronScan, zonedParts_engine, hcand]
    cases zonedParts calendar (newDate ((start + i * 60000 : ℕ) : ℤ)) timezone with
    | error e => rfl
    | ok parts =>
      by_cases hmatch : cronMatches cron parts = true
      · simp only [hmatch, if_true]
        rfl
      · simp only [hmatch]
        exact ih (i + 1)

theorem nextCronOccurrence_engine (expression timezone : Text) {after : ℕ} (h : after ≤ maxTime) :
    nextCronOccurrence calendar expression (newDate after) timezone =
      (Jobs.nextCronOccurrence calendar.engine expression after timezone).map
        fun t : ℕ => newDate t := by
  obtain ⟨instant, hdate, hms⟩ := newDate_of_le h
  obtain ⟨start, hcut, hstart⟩ := setUTCSecondsZero_some instant
  have hcast : start.1 = ((after / 60000 * 60000 : ℕ) : ℤ) := by
    rw [hstart, hms]
    push_cast
    rfl
  unfold nextCronOccurrence Jobs.nextCronOccurrence
  cases parseCron expression with
  | error e => rfl
  | ok cron =>
    rw [hdate, hcut]
    dsimp only
    rw [cronScan_engine cron timezone hcast 1 cronLimit]
    cases Jobs.cronScan calendar.engine cron timezone (after / 60000 * 60000) 1 cronLimit with
    | error e => rfl
    | ok found => cases found <;> rfl

theorem skipPast_cast (every : ℕ) (hevery : 0 < every) (now next : ℕ) :
    skipPast every hevery now next = Jobs.skipPast every now next hevery := by
  induction next using Jobs.skipPast.induct every now hevery with
  | case1 next hle ih =>
    rw [skipPast, if_pos (by omega), Jobs.skipPast, if_pos hle, ← ih]
    push_cast
    rfl
  | case2 next hgt => rw [skipPast, if_neg (by omega), Jobs.skipPast, if_neg hgt]

/-- **The same runs from 1970 on.**  On instants since 1970, the next run of `Jobs.Schedule` is the
    date this model returns. -/
theorem computeNextRun_engine (schedule : JobSchedule) {now : ℕ} (hnow : now ≤ maxTime)
    (timezone : Option Text) {lastRunAt : Option ℕ} (hlast : ∀ t ∈ lastRunAt, t ≤ maxTime) :
    computeNextRun calendar schedule (newDate now) timezone (lastRunAt.map fun t : ℕ => newDate t) =
      (Jobs.computeNextRun calendar.engine schedule now timezone lastRunAt).map
        (Option.map fun t : ℕ => newDate t) := by
  obtain ⟨nowDate, hnowDate, hnowMs⟩ := newDate_of_le hnow
  cases schedule with
  | cron expression =>
    simp only [computeNextRun, Jobs.computeNextRun, nextCronOccurrence_engine _ _ hnow]
    cases Jobs.nextCronOccurrence calendar.engine expression now (timezone.getD "UTC") <;> rfl
  | interval every =>
    obtain ⟨anchor, hanchor, hanchorMs⟩ := newDate_of_le (t := lastRunAt.getD now) (by
      cases lastRunAt with
      | none => exact hnow
      | some t => exact hlast t rfl)
    have hdate : (lastRunAt.map fun t : ℕ => newDate t).getD (newDate now) = some anchor := by
      rw [← hanchor]
      cases lastRunAt <;> rfl
    -- each side asks for the length on its own
    cases hms : parseIntervalMs every with
    | error e =>
      have hdates : computeNextRun calendar (.interval every) (newDate now) timezone
          (lastRunAt.map fun t : ℕ => newDate t) = .error e := by
        rw [computeNextRun]
        split <;> simp_all
      have hengine : Jobs.computeNextRun calendar.engine (.interval every) now timezone lastRunAt =
          .error e := by
        rw [Jobs.computeNextRun]
        split <;> simp_all
      rw [hdates, hengine]
      rfl
    | ok ms =>
      have hpos : 0 < ms := parseIntervalMs_pos hms
      have hdates : computeNextRun calendar (.interval every) (newDate now) timezone
          (lastRunAt.map fun t : ℕ => newDate t) =
            .ok (some (intervalDate ms hpos (some anchor) (newDate now))) := by
        rw [computeNextRun]
        split <;> simp_all
      have hengine : Jobs.computeNextRun calendar.engine (.interval every) now timezone lastRunAt =
          .ok (some (Jobs.skipPast ms now (lastRunAt.getD now + ms) hpos)) := by
        rw [Jobs.computeNextRun]
        split <;> simp_all
      have hcast : anchor.1 + ms = ((lastRunAt.getD now + ms : ℕ) : ℤ) := by
        rw [hanchorMs]
        push_cast
        rfl
      rw [hdates, hengine, hnowDate, intervalDate, hnowMs, hcast, skipPast_cast]
      rfl
  | once runAt =>
    cases lastRunAt with
    | some t => rfl
    | none =>
      simp only [computeNextRun, Jobs.computeNextRun, Calendar.engine, Option.map_none]
      cases hrun : calendar.parseDate runAt with
      | none => simp only [Option.map_none]; rfl
      | some t =>
        simp only [Option.map_some, hnowDate]
        by_cases hle : t.1 ≤ (now : ℤ)
        · rw [if_pos (by omega), if_pos hle]
          show Except.ok (some (some nowDate)) = Except.ok (some (newDate now))
          rw [hnowDate]
        · rw [if_neg (by omega), if_neg hle]
          show Except.ok (some (some t)) = Except.ok (some (newDate (t.1.toNat : ℤ)))
          rw [newDate_eq_some.mpr (show ((t.1.toNat : ℕ) : ℤ) = t.1 by omega)]

/-! ### The next run -/

/-- **The next run.**  A cron search returns the least whole minute strictly after `after` whose
    zoned fields the expression asks for, and fails exactly when no minute of the next 400 days is
    one; an interval's next run is the date of the least `anchor + k * every`, `k ≥ 1`, that is
    later than `now`, which is an invalid date when no `Date` holds that instant. -/
theorem next_run (calendar : Calendar) :
    (∀ (expression timezone : Text) (after : Instant),
      (∀ date, nextCronOccurrence calendar expression (some after) timezone = .ok date →
        ∃ t : Instant, date = some t ∧
          IsLeast {m | IsOccurrence calendar expression timezone m ∧ after < m} t) ∧
      ((∃ e, nextCronOccurrence calendar expression (some after) timezone = .error e) ↔
        ¬ ∃ m : Instant, IsOccurrence calendar expression timezone m ∧ after < m ∧
          m.1 ≤ after.1 + 34560000000)) ∧
    (∀ (every : Text) (ms : ℕ), parseIntervalMs every = .ok ms →
      ∀ (anchor now : Instant) (timezone : Option Text),
        ∃ next : ℤ,
          IsLeast {next | now.1 < next ∧ ∃ k : ℕ, 1 ≤ k ∧ next = anchor.1 + k * ms} next ∧
          ∀ lastRunAt : Option Date, lastRunAt.getD (some now) = some anchor →
            computeNextRun calendar (.interval every) (some now) timezone lastRunAt =
              .ok (some (newDate next))) := by
  refine ⟨fun expression timezone after => ⟨fun date h => nextCronOccurrence_isLeast h,
    nextCronOccurrence_fails_iff⟩, ?_⟩
  intro every ms hms anchor now timezone
  exact computeNextRun_interval hms anchor now timezone

/-- **An occurrence stays the next one** until it comes: computing it anew at any time before gives the
    same instant. -/
theorem nextCronOccurrence_stable {calendar : Calendar} {expression timezone : Text}
    {before now next : Instant}
    (h : nextCronOccurrence calendar expression (some before) timezone = .ok (some next))
    (hle : before ≤ now) (hlt : now < next) :
    nextCronOccurrence calendar expression (some now) timezone = .ok (some next) := by
  have hbefore : before.1 ≤ now.1 := hle
  obtain ⟨t, ht, ⟨hfires, -⟩, hleast⟩ := nextCronOccurrence_isLeast h
  obtain rfl := Option.some.inj ht
  -- it is within the 400 days that are scanned from now
  have hsoon : next.1 ≤ now.1 + 34560000000 := by
    by_contra hlate
    refine absurd (nextCronOccurrence_fails_iff.mpr ?_) (by simp [h] : ¬ ∃ e,
      nextCronOccurrence calendar expression (some before) timezone = .error e)
    rintro ⟨m, hm, hafter, hm400⟩
    have hnext : next.1 ≤ m.1 := hleast ⟨hm, hafter⟩
    omega
  cases hresult : nextCronOccurrence calendar expression (some now) timezone with
  | error e =>
    exact absurd ⟨next, hfires, hlt, hsoon⟩ (nextCronOccurrence_fails_iff.mp ⟨e, hresult⟩)
  | ok date =>
    obtain ⟨t, rfl, hnow⟩ := nextCronOccurrence_isLeast hresult
    rw [le_antisymm (hnow.2 ⟨hfires, hlt⟩) (hleast ⟨hnow.1.1, hle.trans_lt hnow.1.2⟩)]

/-- A calendar that knows the zone `UTC` and reads no dates.  The Gregorian calendar repeats after
    146097 days, which are whole weeks. -/
def utcCalendar : Calendar where
  intl := fun timezone =>
    if timezone = "UTC" then
      some fun t =>
        let parts := utcParts (t.1 % 12622780800000).toNat
        { minute := parts.minute, hour := parts.hour, day := parts.day, month := parts.month,
          weekday := (["Sun", "Mon", "Tue", "Wed", "Thu", "Fri", "Sat"] : List Text)[parts.weekday]? }
    else none
  parseDate := fun _ => none

/-- 15 June 2025, 15:06:40 UTC. -/
def juneAfternoon : Instant := ⟨1750000000000, by decide⟩

/-- At 15:07:40 it is still 15:10. -/
theorem nextCronOccurrence_stable_minute :
    nextCronOccurrence utcCalendar "*/5 * * * *" (some ⟨1750000060000, by decide⟩) "UTC" =
      .ok (some ⟨1750000200000, by decide⟩) :=
  @nextCronOccurrence_stable _ _ _ juneAfternoon _ _ (by decide +kernel) (by decide) (by decide)

/-- Every fifth minute, and every five minutes. -/
theorem next_run_fiveMinutes :
    nextCronOccurrence utcCalendar "*/5 * * * *" (some juneAfternoon) "UTC" =
        .ok (newDate 1750000200000) ∧
      (∃ t : Instant, newDate 1750000200000 = some t ∧
        IsLeast {m | IsOccurrence utcCalendar "*/5 * * * *" "UTC" m ∧ juneAfternoon < m} t) ∧
      parseIntervalMs "5m" = .ok 300000 ∧
      ∃ next : ℤ,
        IsLeast {next | juneAfternoon.1 < next ∧
          ∃ k : ℕ, 1 ≤ k ∧ next = juneAfternoon.1 + k * (300000 : ℕ)} next ∧
        ∀ lastRunAt : Option Date, lastRunAt.getD (some juneAfternoon) = some juneAfternoon →
          computeNextRun utcCalendar (.interval "5m") (some juneAfternoon) none lastRunAt =
            .ok (some (newDate next)) := by
  have hcron : nextCronOccurrence utcCalendar "*/5 * * * *" (some juneAfternoon) "UTC" =
      .ok (newDate 1750000200000) := by decide +kernel
  have hms : parseIntervalMs "5m" = .ok 300000 := by decide +kernel
  exact ⟨hcron, ((next_run utcCalendar).1 _ _ _).1 _ hcron, hms,
    (next_run utcCalendar).2 _ _ hms _ _ _⟩

/-- **An interval longer than time.**  The first point of its grid after now is 1750000000000 ms
    plus 14285714 weeks, and the date that is returned holds no time. -/
theorem interval_past_the_last_date :
    IsLeast {next | juneAfternoon.1 < next ∧
        ∃ k : ℕ, 1 ≤ k ∧ next = juneAfternoon.1 + k * (8639999827200000 : ℕ)}
        8641749827200000 ∧
      parseIntervalMs "14285714 weeks" = .ok 8639999827200000 ∧
      computeNextRun utcCalendar (.interval "14285714 weeks") (some juneAfternoon) none none =
        .ok (some none) := by
  refine ⟨⟨⟨by decide, 1, le_refl 1, by decide⟩, ?_⟩, by decide +kernel, by decide +kernel⟩
  rintro next ⟨-, k, hk, rfl⟩
  show (8641749827200000 : ℤ) ≤ 1750000000000 + k * (8639999827200000 : ℕ)
  push_cast
  omega

end KodyCelld.Jobs.Dates
