import KodyCelld.Auth.AccountStore

namespace KodyCelld.Auth

open KodyCelld.Lib AccountStore

/-!
# The sign-in lockout

A verification reads the failures of its email, awaits the password hash, and then writes the count it
read plus one.

* `Lockout` — what should hold in every state of every run;
* `Apart` — no two verifications with a wrong password for one email are between their read and their
  write at once;
* `lockout_apart` — on runs whose steps are so the first holds;
* `lockoutRace` — on others it does not have to.
-/

/-! ### What should hold -/

/-- The wrong verifications of the email since its last successful one or the last end of a lock,
    latest first.  A lock ends where a verification started after it. -/
def period (email : Text) : List Verification → List Verification
  | [] => []
  | v :: earlier =>
    if v.email ≠ email then period email earlier
    else if v.ok then []
    else if ((period email earlier).head?.bind Verification.lockedUntil).any
        (fun lockedUntil => decide (lockedUntil ≤ v.startedAt)) then [v]
    else v :: period email earlier

variable {p : Platform} {s s' : AccountStore}

/-- Few wrong passwords are tried before the email is locked, a lock lasts its time, and while it does
    every attempt is refused and changes nothing. -/
structure Lockout (g : Coop.Config (accounts p)) : Prop where
  bounded : ∀ email, (period email g.shared.verifications).length ≤ signinMaxFailures
  refused : ∀ t i c email password user last g',
    g.pool t = some (c, .signingIn email password user) →
    signinMaxFailures ≤ (period (normalizeEmail p email) g.shared.verifications).length →
    (period (normalizeEmail p email) g.shared.verifications).head? = some last →
    i.now < last.startedAt + signinLockMs → Coop.step g (.resume t i) = some g' →
    g'.shared = g.shared ∧ g'.log = (c, .signedIn (.error signinLocked)) :: g.log

/-! ### When it does -/

/-- The email for which the call is verifying a wrong password. -/
def Frame.failing? (p : Platform) : Frame → Option Text
  | .verifying v _ =>
    match verifyPassword p v.password (v.passwordHash.getD dummyHash) with
    | some ok => if v.passes ok then none else some v.email
    | none => none
  | _ => none

/-- The condition on a step: where it begins to verify a wrong password, no other call is verifying one
    for the same email. -/
def Apart (g : Coop.Config (accounts p)) : Coop.Event (accounts p) → Prop
  | .call _ _ => True
  | .resume t i => ∀ c email password user v,
    g.pool t = some (c, .signingIn email password user) →
    g.shared.passwordVerify i.now (normalizeEmail p email) (user.map UserRecord.id) password = .ok v →
    (Frame.verifying v user).failing? p = some v.email → Coop.Free (Frame.failing? p) g v.email

/-! ### Periods -/

section
variable {v : Verification} {earlier : List Verification} {email : Text}

theorem period_other (h : v.email ≠ email) : period email (v :: earlier) = period email earlier := by
  rw [period, if_pos h]

theorem period_ok (h : v.email = email) (hok : v.ok = true) : period email (v :: earlier) = [] := by
  rw [period, if_neg (not_not_intro h), if_pos hok]

/-- A wrong verification goes on with the period, or starts one after the lock that ended it. -/
theorem period_wrong (h : v.email = email) (hok : v.ok = false) :
    (period email (v :: earlier) = [v] ∧
      ∃ last lockedUntil, (period email earlier).head? = some last ∧
        last.lockedUntil = some lockedUntil ∧ lockedUntil ≤ v.startedAt) ∨
    (period email (v :: earlier) = v :: period email earlier ∧
      ∀ last lockedUntil, (period email earlier).head? = some last →
        last.lockedUntil = some lockedUntil → v.startedAt < lockedUntil) := by
  rw [period, if_neg (not_not_intro h), if_neg (by simp [hok])]
  split
  · rename_i hended
    obtain ⟨lockedUntil, hlock, hle⟩ := Option.any_eq_true .. |>.mp hended
    obtain ⟨last, hlast, hlastLock⟩ := Option.bind_eq_some_iff.mp hlock
    exact .inl ⟨rfl, last, lockedUntil, hlast, hlastLock, of_decide_eq_true hle⟩
  · rename_i hended
    refine .inr ⟨rfl, fun last lockedUntil hlast hlock => Nat.lt_of_not_le fun hle => hended ?_⟩
    rw [hlast, Option.bind_some, hlock]
    exact decide_eq_true hle

end

/-! ### The invariant -/

/-- What the row of an email says about its period: it counts the failures, or holds the lock that the
    last of them set. -/
def Counts (attempt : Option SigninAttempt) (period : List Verification) : Prop :=
  match attempt with
  | none => period = []
  | some row =>
    match row.lockedUntil with
    | none => period.length ≤ row.failures ∧ row.failures < signinMaxFailures ∧
        period.head?.bind Verification.lockedUntil = none
    | some lockedUntil => row.failures = 0 ∧ period.length ≤ signinMaxFailures ∧
        ∃ last, period.head? = some last ∧ last.lockedUntil = some lockedUntil ∧
          lockedUntil = last.startedAt + signinLockMs

theorem Counts.length_le {attempt : Option SigninAttempt} {period : List Verification}
    (h : Counts attempt period) : period.length ≤ signinMaxFailures := by
  unfold Counts at h
  split at h
  · rw [h]
    exact Nat.zero_le _
  · split at h
    · omega
    · exact h.2.1

/-- What a wrong verification has read is still so, unless a sign-in has succeeded since. -/
structure ReadOk (v : Verifying) (period : List Verification) : Prop where
  failures : v.failures ≤ signinMaxFailures
  read : period = [] ∨ (Counts v.attempt period ∧
    ∀ lockedUntil, v.attempt.bind SigninAttempt.lockedUntil = some lockedUntil → lockedUntil ≤ v.now)

/-- A row that counts says so of whoever reads it. -/
theorem Counts.readOk {now : ℕ} {email password : Text} {userId : Option Text} {v : Verifying}
    (h : Counts (s.attempt email) (period email s.verifications))
    (hv : s.passwordVerify now email userId password = .ok v) :
    v.email = email ∧ v.attempt = s.attempt email ∧ v.now = now ∧
      ReadOk v (period email s.verifications) := by
  unfold passwordVerify at hv
  dsimp only at hv
  split at hv
  · exact absurd hv (by simp)
  rename_i hlocked
  obtain rfl := Except.ok.inj hv
  refine ⟨rfl, rfl, rfl, ?_, .inr ⟨h, fun lockedUntil hlock => Nat.le_of_not_lt fun hlt => ?_⟩⟩
  · show ((s.attempt email).map SigninAttempt.failures).getD 0 + 1 ≤ signinMaxFailures
    unfold Counts at h
    split at h
    · rename_i hnone
      rw [hnone]
      decide
    · rename_i row hrow
      rw [hrow, Option.map_some, Option.getD_some]
      split at h
      · omega
      · rw [h.1]
        decide
  · apply hlocked
    rw [show (s.attempt email).bind SigninAttempt.lockedUntil = some lockedUntil from hlock]
    exact decide_eq_true hlt

/-- What the last failure writes counts the period that it belongs to. -/
theorem ReadOk.counts {v : Verifying} {verifications : List Verification}
    (h : ReadOk v (period v.email verifications)) :
    Counts (some v.failedRow)
      (period v.email (⟨v.email, v.now, false, v.lock⟩ :: verifications)) := by
  have hlength : (period v.email (⟨v.email, v.now, false, v.lock⟩ :: verifications)).length ≤
        v.failures ∧
      (period v.email (⟨v.email, v.now, false, v.lock⟩ :: verifications)).head? =
        some ⟨v.email, v.now, false, v.lock⟩ := by
    have hpositive : 1 ≤ v.failures := Nat.le_add_left 1 _
    rcases @period_wrong ⟨v.email, v.now, false, v.lock⟩ verifications v.email rfl rfl with
      ⟨hone, -⟩ | ⟨hmore, hnone⟩
    · rw [hone]
      exact ⟨hpositive, rfl⟩
    · rw [hmore]
      refine ⟨?_, rfl⟩
      rcases h.read with hempty | ⟨hcounts, hended⟩
      · rw [hempty]
        exact hpositive
      · -- the row that was read counted the period, or its lock had ended
        unfold Counts at hcounts
        split at hcounts
        · rw [hcounts]
          exact hpositive
        · rename_i row hrow
          split at hcounts
          · rw [List.length_cons, Verifying.failures, hrow]
            exact Nat.succ_le_succ hcounts.1
          · rename_i lockedUntil hlock
            obtain ⟨-, -, last, hlast, hlastLock, -⟩ := hcounts
            have hlt : v.now < lockedUntil := hnone last lockedUntil hlast hlastLock
            have hle : lockedUntil ≤ v.now := by
              apply hended
              rw [hrow]
              exact hlock
            omega
  obtain ⟨hlength, hhead⟩ := hlength
  have hfailures := h.failures
  unfold Counts Verifying.failedRow
  by_cases hlock : signinMaxFailures ≤ v.failures
  · have hsome : v.lock = some (v.now + signinLockMs) := if_pos hlock
    simp only [hsome] at hhead hlength ⊢
    exact ⟨rfl, by omega, _, hhead, rfl, rfl⟩
  · have hnone : v.lock = none := if_neg hlock
    simp only [hnone] at hhead hlength ⊢
    refine ⟨hlength, by simpa using hlock, ?_⟩
    rw [hhead]
    rfl

structure LockoutInv (g : Coop.Config (accounts p)) : Prop where
  rows : ∀ email, Counts (g.shared.attempt email) (period email g.shared.verifications)
  alone : Coop.Unique (Frame.failing? p) g
  reads : ∀ t c v user, g.pool t = some (c, .verifying v user) →
    (Frame.verifying v user).failing? p = some v.email →
    ReadOk v (period v.email g.shared.verifications)

/-! ### What a piece does -/

theorem failing_eq {f : Frame} {email : Text} (h : f.failing? p = some email) :
    ∃ v user, f = .verifying v user ∧ v.email = email := by
  unfold Frame.failing? at h
  split at h
  · split at h
    · split at h
      · exact absurd h (by simp)
      · exact ⟨_, _, rfl, Option.some.inj h⟩
    · exact absurd h (by simp)
  · exact absurd h (by simp)

/-- The two tables of the lockout are the same. -/
def SameAttempts (s s' : AccountStore) : Prop :=
  s'.signinAttempts = s.signinAttempts ∧ s'.verifications = s.verifications

/-- A piece begins a verification, carries one out, or leaves the attempts alone. -/
theorem piece_cases (s : AccountStore) (f : Frame) (i : Input) :
    (SameAttempts s (piece p s f i).1 ∧
      ∀ v user, (piece p s f i).2 = .inl (.verifying v user) →
        ∃ email password, f = .signingIn email password user ∧
          s.passwordVerify i.now (normalizeEmail p email) (user.map UserRecord.id) password = .ok v) ∨
    ∃ v user, f = .verifying v user ∧
      (∀ v' user', (piece p s f i).2 ≠ .inl (.verifying v' user')) ∧
      (SameAttempts (s.recordSuccess v) (piece p s f i).1 ∨
        (f.failing? p = some v.email ∧ (piece p s f i).1 = s.recordFailure v)) := by
  cases f with
  | start call =>
    left
    cases call with
    | ensureUser email =>
      refine ⟨?_, fun v user h => absurd h (by simp [piece])⟩
      simp only [piece, ensureUser]
      repeat' split
      all_goals exact ⟨rfl, rfl⟩
    | passwordSet userId password =>
      simp only [piece]
      split
      · exact ⟨⟨rfl, rfl⟩, fun v user h => absurd h (by simp)⟩
      · exact ⟨⟨rfl, rfl⟩, fun v user h => absurd h (by simp)⟩
    | passwordClear userId => exact ⟨⟨rfl, rfl⟩, fun v user h => absurd h (by simp [piece])⟩
    | passwordSignin email password =>
      exact ⟨⟨rfl, rfl⟩, fun v user h => absurd h (by simp [piece])⟩
  | signingIn email password user =>
    left
    simp only [piece]
    split
    · exact ⟨⟨rfl, rfl⟩, fun v user h => absurd h (by simp)⟩
    · rename_i v hv
      refine ⟨⟨rfl, rfl⟩, fun v' user' h => ?_⟩
      obtain ⟨rfl, rfl⟩ := Frame.verifying.inj (Sum.inl.inj h)
      exact ⟨email, password, rfl, hv⟩
  | verifying v user =>
    simp only [piece]
    split
    · exact .inl ⟨⟨rfl, rfl⟩, fun v' user' h => absurd h (by simp)⟩
    · exact .inl ⟨⟨rfl, rfl⟩, fun v' user' h => absurd h (by simp)⟩
    · rename_i ok _ hverify
      refine .inr ⟨v, user, rfl, ?_⟩
      unfold verified
      by_cases hpasses : v.passes ok = true
      · rw [if_pos hpasses]
        dsimp only
        repeat' split
        all_goals exact ⟨fun v' user' => by simp, .inl ⟨rfl, rfl⟩⟩
      · rw [if_neg hpasses]
        refine ⟨fun v' user' => by simp, .inr ⟨?_, rfl⟩⟩
        show (match verifyPassword p v.password (v.passwordHash.getD dummyHash) with
          | some ok => if v.passes ok then none else some v.email
          | none => none) = some v.email
        rw [hverify]
        exact if_neg hpasses
  | rehashing userId password user =>
    left
    simp only [piece]
    split
    · exact ⟨⟨rfl, rfl⟩, fun v user h => absurd h (by simp)⟩
    · exact ⟨⟨rfl, rfl⟩, fun v user h => absurd h (by simp)⟩
  | hashing userId password =>
    left
    simp only [piece]
    split
    · exact ⟨⟨rfl, rfl⟩, fun v user h => absurd h (by simp)⟩
    · exact ⟨⟨rfl, rfl⟩, fun v user h => absurd h (by simp)⟩

theorem attempt_recordFailure {v : Verifying} (email : Text) :
    (s.recordFailure v).attempt email =
      if v.email = email then some v.failedRow else s.attempt email := by
  unfold recordFailure attempt
  rw [Rows.find?_upsert]
  by_cases hemail : v.email = email
  · rw [if_pos (show v.failedRow.email = email from hemail), if_pos hemail]
    cases hrow : s.signinAttempts.find? email with
    | none => rfl
    | some row =>
      obtain ⟨-, hrowEmail⟩ := Rows.find?_eq_some.mp hrow
      rw [Option.elim_some, show row.email = v.failedRow.email from hrowEmail.trans hemail.symm]
  · rw [if_neg (show v.failedRow.email ≠ email from hemail), if_neg hemail]

theorem attempt_recordSuccess {v : Verifying} (email : Text) :
    (s.recordSuccess v).attempt email = if v.email = email then none else s.attempt email := by
  unfold recordSuccess attempt
  rw [Rows.find?_filter]
  cases hrow : s.signinAttempts.find? email with
  | none => simp
  | some row =>
    obtain ⟨-, rfl⟩ := Rows.find?_eq_some.mp hrow
    by_cases hemail : v.email = row.email
    · rw [if_pos hemail, hemail]
      simp
    · rw [if_neg hemail]
      simp [Option.filter, Ne.symm hemail]

/-! ### The invariant along a run -/

section
variable {g g' : Coop.Config (accounts p)} {t : ℕ} {c : Call} {f : Frame} {i : Input}
  {out : Frame ⊕ Ret}

theorem LockoutInv.call (hg : LockoutInv g) (c : Call) :
    LockoutInv { g with pool := Function.update g.pool t (some (c, Frame.start c)) } := by
  refine ⟨hg.rows, hg.alone.call rfl, fun u c' v user hu hfailing => ?_⟩
  rcases Coop.pool_update_cases hu with ⟨-, heq⟩ | ⟨-, hu⟩
  · exact absurd (Prod.mk.inj (Option.some.inj heq)).2 (by simp)
  · exact hg.reads u c' v user hu hfailing

/-- A piece that leaves the attempts alone. -/
theorem LockoutInv.same (hg : LockoutInv g) (hran : Coop.Ran g g' t c f i out)
    (hshared : SameAttempts g.shared g'.shared)
    (hbegins : ∀ v user, out = .inl (.verifying v user) →
      ∃ email password, f = .signingIn email password user ∧
        g.shared.passwordVerify i.now (normalizeEmail p email) (user.map UserRecord.id) password =
          .ok v)
    (hapart : Apart g (.resume t i)) : LockoutInv g' := by
  obtain ⟨hattempts, hverifications⟩ := hshared
  refine ⟨fun email => ?_, hg.alone.ran hran fun f' email hout hfailing => ?_,
    fun u c' v user hu hfailing => ?_⟩
  · rw [hverifications, attempt, hattempts]
    exact hg.rows email
  · obtain ⟨v, user, rfl, rfl⟩ := failing_eq hfailing
    obtain ⟨email, password, rfl, hv⟩ := hbegins v user hout
    exact .inr (hapart c email password user v hran.before hv hfailing)
  · rw [hverifications]
    rcases hran.pool u c' _ hu with ⟨-, hold⟩ | ⟨-, -, hout⟩
    · exact hg.reads u c' v user hold hfailing
    · obtain ⟨email, password, rfl, hv⟩ := hbegins v user hout
      obtain ⟨hemail, -, -, hread⟩ := (hg.rows (normalizeEmail p email)).readOk hv
      rw [hemail]
      exact hread

/-- A piece that carries a verification out, and begins none. -/
theorem LockoutInv.verified (hg : LockoutInv g) {v : Verifying} {user : Option UserRecord}
    (hran : Coop.Ran g g' t c (.verifying v user) i out)
    (hbegins : ∀ v' user', out ≠ .inl (.verifying v' user')) {entry : Verification}
    (hentry : entry.email = v.email)
    (hverifications : g'.shared.verifications = entry :: g.shared.verifications)
    (hother : ∀ email, v.email ≠ email → g'.shared.attempt email = g.shared.attempt email)
    (hcounts : Counts (g'.shared.attempt v.email) (period v.email g'.shared.verifications))
    (hends : period v.email g'.shared.verifications = [] ∨
      (Frame.verifying v user).failing? p = some v.email) : LockoutInv g' := by
  have hperiod : ∀ {email}, v.email ≠ email →
      period email g'.shared.verifications = period email g.shared.verifications := by
    intro email hemail
    rw [hverifications, period_other (hentry ▸ hemail)]
  refine ⟨fun email => ?_, hg.alone.ran hran fun f' email hout hfailing => ?_,
    fun u c' v' user' hu hfailing => ?_⟩
  · by_cases hemail : v.email = email
    · exact hemail ▸ hcounts
    · rw [hperiod hemail, hother email hemail]
      exact hg.rows email
  · obtain ⟨v', user', rfl, -⟩ := failing_eq hfailing
    exact absurd hout (hbegins v' user')
  · rcases hran.pool u c' _ hu with ⟨hut, hold⟩ | ⟨-, -, hout⟩
    · have hread := hg.reads u c' v' user' hold hfailing
      by_cases hemail : v.email = v'.email
      · rcases hends with hempty | hmine
        · rw [← hemail, hempty]
          exact ⟨hread.failures, .inl rfl⟩
        · -- no other call verifies a wrong password for this email
          rw [hemail] at hmine
          exact absurd (hg.alone u t c' c _ _ _ hold hran.before hfailing hmine) hut
      · rw [hperiod hemail]
        exact hread
    · exact absurd hout (hbegins v' user')

/-- **Step lemma.** -/
theorem LockoutInv.step {e : Coop.Event (accounts p)} (hg : LockoutInv g) (hapart : Apart g e)
    (h : Coop.step g e = some g') : LockoutInv g' := by
  rcases Coop.step_ran h with ⟨t, c, -, -, rfl⟩ | ⟨t, i, c, f, out, rfl, hran⟩
  · exact hg.call c
  · have hpiece : piece p g.shared f i = (g'.shared, out) := Option.some.inj hran.runs
    have hcases := piece_cases (p := p) g.shared f i
    rw [hpiece] at hcases
    rcases hcases with ⟨hsame, hbegins⟩ | ⟨v, user, rfl, hbegins, hends⟩
    · exact hg.same hran hsame hbegins hapart
    · rcases hends with ⟨hattempts, hverifications⟩ | ⟨hfailing, hfailure⟩
      · dsimp only at hattempts hverifications
        have hempty : period v.email g'.shared.verifications = [] := by
          rw [hverifications]
          exact period_ok rfl rfl
        refine hg.verified hran hbegins rfl hverifications (fun email hemail => ?_) ?_ (.inl hempty)
        · rw [attempt, hattempts, ← attempt, attempt_recordSuccess, if_neg hemail]
        · rw [hempty, attempt, hattempts, ← attempt, attempt_recordSuccess, if_pos rfl]
          rfl
      · dsimp only at hfailure
        have hread := hg.reads t c v user hran.before hfailing
        refine hg.verified hran hbegins rfl (congrArg AccountStore.verifications hfailure)
          (fun email hemail => ?_) ?_ (.inr hfailing)
        · rw [hfailure, attempt_recordFailure, if_neg hemail]
        · rw [hfailure, attempt_recordFailure, if_pos rfl]
          exact hread.counts

/-- While a lock lasts every attempt is refused. -/
theorem LockoutInv.lockout (hg : LockoutInv g) : Lockout g := by
  refine ⟨fun email => (hg.rows email).length_le, fun t i c email password user last g' hpool hfull
    hlast hnow hstep => ?_⟩
  have hlocked : (g.shared.attempt (normalizeEmail p email)).bind SigninAttempt.lockedUntil =
      some (last.startedAt + signinLockMs) := by
    have hcounts := hg.rows (normalizeEmail p email)
    unfold Counts at hcounts
    split at hcounts
    · rw [hcounts] at hlast
      exact absurd hlast (by simp)
    · rename_i row hrow
      rw [hrow, Option.bind_some]
      split at hcounts
      · omega
      · rename_i lockedUntil hlock
        obtain ⟨-, -, found, hfound, -, huntil⟩ := hcounts
        obtain rfl := Option.some.inj (hfound.symm.trans hlast)
        rw [hlock, huntil]
  have hrefused : g.shared.passwordVerify i.now (normalizeEmail p email) (user.map UserRecord.id)
      password = .error signinLocked := by
    unfold passwordVerify
    dsimp only
    rw [hlocked, Option.any_some, decide_eq_true hnow, if_pos rfl]
  have hpiece : piece p g.shared (.signingIn email password user) i =
      (g.shared, .inr (.signedIn (.error signinLocked))) := by
    simp only [piece, hrefused]
  simp only [Coop.step, hpool, hpiece] at hstep
  obtain rfl := Option.some.inj hstep
  exact ⟨rfl, rfl⟩

end

theorem LockoutInv.fresh : LockoutInv (freshAccounts p) where
  rows := fun _ => rfl
  alone := fun _ _ _ _ _ _ _ h => absurd h (by simp [freshAccounts, Coop.idle])
  reads := fun _ _ _ _ h => absurd h (by simp [freshAccounts, Coop.idle])

/-- **The lockout holds** in every run in which no two verifications with a wrong password for one
    email overlap. -/
theorem lockout_apart {g : Coop.Config (accounts p)}
    (h : Reaches Coop.step Apart (freshAccounts p) g) : Lockout g :=
  (h.invariant LockoutInv (fun _ _ _ hg hapart hstep => hg.step hapart hstep) .fresh).lockout

/-! ### Two runs -/

theorem apart_of_solo {g : Coop.Config (accounts p)} {e : Coop.Event (accounts p)}
    (h : Coop.Solo g e) : Apart g e := by
  cases e with
  | call t c => trivial
  | resume t i =>
    intro c email password user v hpool _ _
    exact h.free hpool rfl

/-- A platform that lowers nothing and keeps the letters of a password as its key. -/
def clearAccounts : Platform where
  toLowerCase := id
  derive := fun password _ _ => password.map fun c => UInt8.ofNat c.toNat

/-- The outside at an instant. -/
def at_ (now : ℕ) : Input := ⟨now, "u", [7], none⟩

/-- A call and its pieces, with nothing between them. -/
def alone (t : ℕ) (c : Call) (inputs : List Input) : List (Coop.Event (accounts clearAccounts)) :=
  .call t c :: inputs.map (.resume t)

/-- A user with a password. -/
def accountRun : List (Coop.Event (accounts clearAccounts)) :=
  alone 0 (.ensureUser "a@b.c") [at_ 0] ++
  alone 0 (.passwordSet "u" "correct horse") [at_ 0, at_ 0]

/-- A sign-in, with nothing between its pieces. -/
def signin (now : ℕ) (password : Text) : List (Coop.Event (accounts clearAccounts)) :=
  alone 0 (.passwordSignin "a@b.c" password) [at_ now, at_ now, at_ now]

/-- Five wrong passwords, the right one while the email is locked, and again once it is not. -/
def lockedRun : List (Coop.Event (accounts clearAccounts)) :=
  accountRun ++ (List.range 5).flatMap (fun n => signin (n + 1) "wrong password") ++
  alone 0 (.passwordSignin "a@b.c" "correct horse") [at_ 6, at_ 6] ++
  signin (5 + signinLockMs) "correct horse"

theorem lockout_apart_lockedRun :
    ∃ g, execGuarded Coop.step (Coop.soloBelow 1) (freshAccounts clearAccounts) lockedRun = some g ∧
      Lockout g ∧ g.shared.verifications.map Verification.ok =
        [true, false, false, false, false, false] := by
  have hrun : (execGuarded Coop.step (Coop.soloBelow 1) (freshAccounts clearAccounts) lockedRun).map
      (fun g => g.shared.verifications.map Verification.ok) =
        some [true, false, false, false, false, false] := by
    decide +kernel
  obtain ⟨g, hg, hseen⟩ := Option.map_eq_some_iff.mp hrun
  have hsolo := Coop.reaches_of_soloBelow (fun _ _ => rfl) hg
  exact ⟨g, hg, lockout_apart (hsolo.mono fun _ _ => apart_of_solo), hseen⟩

/-- Six sign-ins with a wrong password: each reads the failures before any has written its own. -/
def overlappingSignins : List (Coop.Event (accounts clearAccounts)) :=
  accountRun ++
  (List.range 6).map (fun t => .call t (.passwordSignin "a@b.c" "wrong password")) ++
  (List.range 6).map (fun t => .resume t (at_ 1)) ++
  (List.range 6).map (fun t => .resume t (at_ 1)) ++
  (List.range 6).map (fun t => .resume t (at_ 1))

/-- **Race.**  Six wrong passwords are tried within one instant, and the row says that one was. -/
theorem lockoutRace :
    ∃ g, exec Coop.step (freshAccounts clearAccounts) overlappingSignins = some g ∧
      Reaches Coop.step (fun _ _ => True) (freshAccounts clearAccounts) g ∧
      (period "a@b.c" g.shared.verifications).length = 6 ∧
      (g.shared.attempt "a@b.c").map SigninAttempt.failures = some 1 ∧ ¬ Lockout g := by
  have hrun : (exec Coop.step (freshAccounts clearAccounts) overlappingSignins).map (fun g =>
      ((period "a@b.c" g.shared.verifications).length,
        (g.shared.attempt "a@b.c").map SigninAttempt.failures)) = some (6, some 1) := by
    decide +kernel
  obtain ⟨g, hg, hseen⟩ := Option.map_eq_some_iff.mp hrun
  obtain ⟨hlength, hfailures⟩ := Prod.mk.inj hseen
  refine ⟨g, hg, reaches_of_exec hg, hlength, hfailures, fun h => ?_⟩
  have hle := h.bounded "a@b.c"
  rw [hlength] at hle
  exact absurd hle (by decide)

end KodyCelld.Auth
