import KodyCelld.Jobs.Schedule

namespace KodyCelld.Jobs

open KodyCelld.Lib

/-!
# Computing a next run anew (`jobs/schedule.ts`)

A save and an update compute the next run of a job from the current time, whatever it was before.

* `nextRunText_ge` — a next run is not before the time it was computed at;
* `KeepsNext` — when a next run computed now is not later than one computed before;
* `nextRunText_le_iff` — exactly then.
-/

variable (engine : Engine)

/-! ### Cron -/

/-- What the scan finds is the first minute that matches. -/
theorem cronScan_first {cron : ParsedCron} {timezone : Text} {start i n t : ℕ}
    (h : cronScan engine cron timezone start i n = .ok (some t)) :
    ∃ j, i ≤ j ∧ t = start + j * 60000 ∧
      (∃ parts, zonedParts engine timezone t = .ok parts ∧ cronMatches cron parts = true) ∧
      ∀ k, i ≤ k → k < j → ∃ parts, zonedParts engine timezone (start + k * 60000) = .ok parts ∧
        cronMatches cron parts = false := by
  induction n generalizing i with
  | zero => exact absurd h (by simp [cronScan])
  | succ n ih =>
    rw [cronScan] at h
    split at h
    · exact absurd h (by simp)
    rename_i parts hparts
    split at h
    · rename_i hmatch
      simp only [Except.ok.injEq, Option.some.injEq] at h
      subst h
      exact ⟨i, le_refl i, rfl, ⟨parts, hparts, hmatch⟩, fun k hik hki => absurd hki (by omega)⟩
    · rename_i hmatch
      obtain ⟨j, hij, ht, hfound, hbefore⟩ := ih h
      refine ⟨j, by omega, ht, hfound, ?_⟩
      intro k hik hkj
      rcases Nat.eq_or_lt_of_le hik with rfl | hlt
      · exact ⟨parts, hparts, by simpa using hmatch⟩
      · exact hbefore k hlt hkj

/-- A cron occurrence is a minute that matches, and the first one after the time asked about. -/
theorem nextCronOccurrence_first {expression timezone : Text} {after t : ℕ}
    (h : nextCronOccurrence engine expression after timezone = .ok t) :
    ∃ cron, parseCron expression = .ok cron ∧ 60000 ∣ t ∧
      (∃ parts, zonedParts engine timezone t = .ok parts ∧ cronMatches cron parts = true) ∧
      ∀ m, 60000 ∣ m → after < m → m < t →
        ∃ parts, zonedParts engine timezone m = .ok parts ∧ cronMatches cron parts = false := by
  unfold nextCronOccurrence at h
  split at h
  · exact absurd h (by simp)
  rename_i cron hcron
  split at h
  · exact absurd h (by simp)
  · rename_i hscan
    rw [Except.ok.injEq] at h
    subst h
    obtain ⟨j, hj, ht, hfound, hbefore⟩ := cronScan_first engine hscan
    refine ⟨cron, hcron, ?_, hfound, ?_⟩
    · rw [ht, ← Nat.add_mul]
      exact Nat.dvd_mul_left 60000 _
    · rintro m ⟨q, rfl⟩ hafter hlt
      have hmod := Nat.div_add_mod after 60000
      have hsmall := Nat.mod_lt after (show 60000 > 0 by norm_num)
      have hminute : 60000 * q = after / 60000 * 60000 + (q - after / 60000) * 60000 := by
        have hle : after / 60000 ≤ q := by omega
        rw [← Nat.add_mul, Nat.add_sub_cancel' hle, Nat.mul_comm]
      rw [hminute]
      exact hbefore _ (by omega) (by omega)
  · exact absurd h (by simp)

/-- A cron occurrence computed now is not later than one found before that is still to come. -/
theorem nextCronOccurrence_le {expression timezone : Text} {before now next next' : ℕ}
    (h : nextCronOccurrence engine expression before timezone = .ok next)
    (h' : nextCronOccurrence engine expression now timezone = .ok next') (hnow : now < next) :
    next' ≤ next := by
  obtain ⟨cron, hcron, hminute, ⟨parts, hparts, hmatch⟩, -⟩ := nextCronOccurrence_first engine h
  obtain ⟨cron', hcron', -, -, hbefore⟩ := nextCronOccurrence_first engine h'
  obtain rfl : cron = cron' := Except.ok.inj (hcron.symm.trans hcron')
  by_contra hlater
  obtain ⟨parts', hparts', hno⟩ := hbefore next hminute hnow (by omega)
  obtain rfl : parts = parts' := Except.ok.inj (hparts.symm.trans hparts')
  rw [hmatch] at hno
  cases hno

/-! ### Intervals -/

theorem skipPast_of_lt {every now next : ℕ} (hevery : 0 < every) (h : now < next) :
    skipPast every now next hevery = next := by
  rw [skipPast, if_neg (by omega)]

/-- What is skipped to is a number of intervals away. -/
theorem skipPast_eq_add (every now next : ℕ) (hevery : 0 < every) :
    ∃ k, skipPast every now next hevery = next + k * every := by
  induction next using skipPast.induct every now hevery with
  | case1 next hle ih =>
    obtain ⟨k, hk⟩ := ih
    refine ⟨k + 1, ?_⟩
    rw [skipPast, if_pos hle, hk]
    ring
  | case2 next hgt =>
    refine ⟨0, ?_⟩
    rw [skipPast, if_neg hgt]
    omega

/-- It is the first such instant past now. -/
theorem skipPast_le {every now next k : ℕ} (hevery : 0 < every) (h : now < next + k * every) :
    skipPast every now next hevery ≤ next + k * every := by
  induction next using skipPast.induct every now hevery generalizing k with
  | case1 next hle ih =>
    rw [skipPast, if_pos hle]
    cases k with
    | zero => omega
    | succ k =>
      have hsplit : next + (k + 1) * every = next + every + k * every := by ring
      rw [hsplit] at h ⊢
      exact ih h
  | case2 next hgt =>
    rw [skipPast, if_neg hgt]
    omega

/-! ### The next run computed anew -/

/-- A next run that was computed: what the schedule gave, and a date. -/
theorem nextRunText_some {schedule : JobSchedule} {now next : ℕ} {timezone : Option Text}
    {lastRunAt : Option ℕ}
    (h : nextRunText engine schedule now timezone lastRunAt = .ok (some next)) :
    computeNextRun engine schedule now timezone lastRunAt = .ok (some next) ∧ next ≤ maxTime := by
  unfold nextRunText at h
  split at h
  · cases h
  · cases h
  · rename_i t ht
    unfold toISOString at h
    split at h
    · cases h
    rename_i t' htext
    split at htext
    · rename_i hmax
      obtain rfl := Except.ok.inj htext
      obtain rfl := Option.some.inj (Except.ok.inj h)
      exact ⟨ht, hmax⟩
    · cases htext

/-- Only a `once` job that has run has no next run. -/
theorem nextRunText_none {schedule : JobSchedule} {now : ℕ} {timezone : Option Text}
    {lastRunAt : Option ℕ} (h : nextRunText engine schedule now timezone lastRunAt = .ok none) :
    (∃ runAt, schedule = .once runAt) ∧ ∃ last, lastRunAt = some last := by
  have hnone : computeNextRun engine schedule now timezone lastRunAt = .ok none := by
    unfold nextRunText at h
    split at h
    · cases h
    · assumption
    · split at h
      · cases h
      · cases h
  cases schedule with
  | cron expression =>
    simp only [computeNextRun] at hnone
    split at hnone
    · cases hnone
    · cases hnone
  | interval every =>
    simp only [computeNextRun] at hnone
    split at hnone
    · cases hnone
    · cases hnone
  | once runAt =>
    refine ⟨⟨runAt, rfl⟩, ?_⟩
    cases lastRunAt with
    | some last => exact ⟨last, rfl⟩
    | none =>
      simp only [computeNextRun] at hnone
      split at hnone
      · cases hnone
      · cases hnone

/-- The interval of a schedule whose next run was computed. -/
theorem computeNextRun_interval {every : Text} {now next : ℕ} {timezone : Option Text}
    {lastRunAt : Option ℕ}
    (h : computeNextRun engine (.interval every) now timezone lastRunAt = .ok (some next)) :
    ∃ ms, ∃ hms : 0 < ms, parseIntervalMs every = .ok ms ∧
      next = skipPast ms now (lastRunAt.getD now + ms) hms := by
  simp only [computeNextRun] at h
  split at h
  · cases h
  rename_i ms hparse
  exact ⟨ms, parseIntervalMs_pos hparse, hparse,
    (Option.some.inj (Except.ok.inj h)).symm⟩

/-- The next run of a `once` job that has not run: its instant, or now where that has passed. -/
theorem computeNextRun_once {runAt : Text} {now next : ℕ} {timezone : Option Text}
    (h : computeNextRun engine (.once runAt) now timezone none = .ok (some next))
    (hmax : next ≤ maxTime) :
    ∃ t : ℤ, engine.dateParse runAt = some t ∧ (next : ℤ) = max t now := by
  simp only [computeNextRun] at h
  split at h
  · obtain rfl := Option.some.inj (Except.ok.inj h)
    exact absurd hmax (by omega)
  · rename_i t ht
    refine ⟨t, ht, ?_⟩
    rw [← Option.some.inj (Except.ok.inj h)]
    split
    · omega
    · omega

/-- **A next run is not in the past** of when it was computed. -/
theorem nextRunText_ge {schedule : JobSchedule} {now next : ℕ} {timezone : Option Text}
    {lastRunAt : Option ℕ}
    (h : nextRunText engine schedule now timezone lastRunAt = .ok (some next)) : now ≤ next := by
  obtain ⟨hcompute, hmax⟩ := nextRunText_some engine h
  cases lastRunAt with
  | some last => exact (computeNextRun_gt engine hcompute).le
  | none =>
    cases schedule with
    | cron expression =>
      simp only [computeNextRun] at hcompute
      split at hcompute
      · cases hcompute
      rename_i t ht
      obtain rfl := Option.some.inj (Except.ok.inj hcompute)
      exact (nextCronOccurrence_gt engine ht).le
    | interval every =>
      obtain ⟨ms, hms, -, rfl⟩ := computeNextRun_interval engine hcompute
      exact (lt_skipPast ..).le
    | once runAt =>
      obtain ⟨t, -, hnext⟩ := computeNextRun_once engine hcompute hmax
      omega

/-- **A next run that computing anew does not put off**: it is still to come; for an interval that
    has not run yet, a whole interval away; for a `once` job, not past. -/
def KeepsNext (schedule : JobSchedule) (lastRunAt : Option ℕ) (next now : ℕ) : Prop :=
  match schedule, lastRunAt with
  | .once _, _ => now ≤ next
  | .interval every, none => ∃ ms, parseIntervalMs every = .ok ms ∧ now + ms ≤ next
  | _, _ => now < next

/-- **Computing anew**: the next run that was computed before is kept, or moved forward, exactly
    when `KeepsNext` says so. -/
theorem nextRunText_le_iff {schedule : JobSchedule} {before now next next' : ℕ}
    {timezone : Option Text} {lastRunAt : Option ℕ}
    (h : nextRunText engine schedule before timezone lastRunAt = .ok (some next))
    (h' : nextRunText engine schedule now timezone lastRunAt = .ok (some next')) :
    next' ≤ next ↔ KeepsNext schedule lastRunAt next now := by
  obtain ⟨hcompute, hmax⟩ := nextRunText_some engine h
  obtain ⟨hcompute', hmax'⟩ := nextRunText_some engine h'
  cases schedule with
  | cron expression =>
    have hkeeps : KeepsNext (.cron expression) lastRunAt next now ↔ now < next := by
      cases lastRunAt <;> rfl
    rw [hkeeps]
    simp only [computeNextRun] at hcompute hcompute'
    split at hcompute
    · cases hcompute
    rename_i t ht
    obtain rfl := Option.some.inj (Except.ok.inj hcompute)
    split at hcompute'
    · cases hcompute'
    · rename_i t' ht'
      obtain rfl := Option.some.inj (Except.ok.inj hcompute')
      constructor
      · intro hle
        have hgt := nextCronOccurrence_gt engine ht'
        omega
      · exact nextCronOccurrence_le engine ht ht'
  | interval every =>
    obtain ⟨ms, hms, hparse, rfl⟩ := computeNextRun_interval engine hcompute
    obtain ⟨ms', hms', hparse', rfl⟩ := computeNextRun_interval engine hcompute'
    obtain rfl : ms = ms' := Except.ok.inj (hparse.symm.trans hparse')
    cases lastRunAt with
    | none =>
      -- the anchor is the time of the computation
      rw [Option.getD_none, Option.getD_none, skipPast_of_lt hms (by omega),
        skipPast_of_lt hms (by omega)]
      constructor
      · intro hle
        exact ⟨ms, hparse, hle⟩
      · rintro ⟨ms', hms', hle⟩
        obtain rfl : ms = ms' := Except.ok.inj (hparse.symm.trans hms')
        exact hle
    | some last =>
      rw [Option.getD_some, Option.getD_some]
      have hgt := lt_skipPast ms now (last + ms) hms
      obtain ⟨k, hk⟩ := skipPast_eq_add ms before (last + ms) hms
      show _ ↔ now < skipPast ms before (last + ms) hms
      rw [hk]
      constructor
      · intro hle
        omega
      · exact skipPast_le hms
  | once runAt =>
    cases lastRunAt with
    | some last => cases hcompute
    | none =>
      obtain ⟨t, ht, hnext⟩ := computeNextRun_once engine hcompute hmax
      obtain ⟨t', ht', hnext'⟩ := computeNextRun_once engine hcompute' hmax'
      obtain rfl : t = t' := Option.some.inj (ht.symm.trans ht')
      show next' ≤ next ↔ now ≤ next
      omega

end KodyCelld.Jobs
