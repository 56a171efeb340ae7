import KodyCelld.Auth.SigninLockout
import KodyCelld.Lib.JsonText

namespace KodyCelld.Auth

open KodyCelld.Lib AccountStore

/-!
# Password changes beside sign-ins (`auth/account-store.ts`)

A verification reads the stored hash, awaits the hash of the given password, and may then await the
hash for the current work factor and store it.  It does not look again whether the row it read is
still there.

* `Final` — after a change has returned, only the password that it set is accepted;
* `Settled` — no change is written while a sign-in in flight will accept another password;
* `needsRehash_hashPassword` — a hash that a change stores is not upgraded;
* `final_settled` — on runs whose steps are so the first holds;
* `upgradeRace` — on others an upgrade brings the old password back.
-/

/-! ### What should hold -/

/-- What a call that returned has changed: the user, and the password that was set, if any. -/
def returnedChange : Call × Ret → Option (Text × Option Text)
  | (.passwordSet userId password, .done (.ok ())) => some (userId, some password)
  | (.passwordClear userId, .done (.ok ())) => some (userId, none)
  | _ => none

/-- The last change for the user among the calls that returned, the latest first. -/
def lastChange (userId : Text) : List (Call × Ret) → Option (Option Text)
  | [] => none
  | entry :: earlier =>
    match returnedChange entry with
    | some (id, change) => if id = userId then some change else lastChange userId earlier
    | none => lastChange userId earlier

/-- Whom a call that returned has signed in, and with which password. -/
def acceptedIn : Call × Ret → Option (UserRecord × Text)
  | (.passwordSignin _ password, .signedIn (.ok (some user))) => some (user, password)
  | _ => none

variable (p : Platform)

/-- The password is the one that was set, or no verification tells them apart. -/
def MatchesChange (change : Option Text) (password : Text) : Prop :=
  ∃ set, change = some set ∧
    (password = set ∨ ∃ salt, verifyPassword p password (hashPassword p set salt) = some true)

/-- **Every sign-in that returned after a change was with the password that it set.** -/
def Final : List (Call × Ret) → Prop
  | [] => True
  | entry :: earlier => Final earlier ∧ ∀ user password, acceptedIn entry = some (user, password) →
      ∀ change, lastChange user.id earlier = some change → MatchesChange p change password

/-! ### When it does -/

/-- The user and the password of a verification that will pass. -/
def AccountStore.Verifying.accepting? (v : Verifying) : Option (Text × Text) :=
  match v.userId, v.passwordHash with
  | some userId, some hash =>
    if verifyPassword p v.password hash = some true then some (userId, v.password) else none
  | _, _ => none

/-- The user and the password that the call will accept, or store again. -/
def Frame.accepting? : Frame → Option (Text × Text)
  | .verifying v _ => v.accepting? p
  | .rehashing userId password _ => some (userId, password)
  | _ => none

/-- The change that the next piece of the call writes. -/
def Frame.changing? (i : Input) : Frame → Option (Text × Option Text)
  | .start (.passwordClear userId) => some (userId, none)
  | .hashing userId password => if i.rejected = none then some (userId, some password) else none
  | _ => none

/-- The condition on a step: where it writes a change, no sign-in of the user in flight will accept
    another password than the one that is set. -/
def Settled (g : Coop.Config (accounts p)) : Coop.Event (accounts p) → Prop
  | .call _ _ => True
  | .resume t i => ∀ c f userId change, g.pool t = some (c, f) →
      f.changing? i = some (userId, change) → ∀ u c' f' password, g.pool u = some (c', f') →
        f'.accepting? p = some (userId, password) → change = some password

/-! ### Hashes -/

variable {p}

theorem mark_notMem_bytesToHex (bytes : List UInt8) : '$' ∉ bytesToHex bytes := fun hmem =>
  absurd (mem_bytesToHex hmem) (by decide)

/-- The parts of a hash. -/
theorem splitOn_hashPassword (password : Text) (salt : List UInt8) :
    (hashPassword p password salt).splitOn '$' = ([("pbkdf2-sha256" : Text), "600000",
      bytesToHex salt, bytesToHex (p.derive password salt passwordIterations)] : List Text) := by
  have hparts : hashPassword p password salt = ("pbkdf2-sha256" : Text) ++ '$' ::
      (("600000" : Text) ++ '$' :: (bytesToHex salt ++ '$' ::
        bytesToHex (p.derive password salt passwordIterations))) := by
    have hiterations : natText passwordIterations = ("600000" : Text) := by decide
    unfold hashPassword
    rw [hiterations]
    simp only [List.append_assoc]
    rfl
  rw [hparts, List.splitOn_append_cons_self_of_not_mem (by decide),
    List.splitOn_append_cons_self_of_not_mem (by decide),
    List.splitOn_append_cons_self_of_not_mem (mark_notMem_bytesToHex salt),
    List.splitOn_eq_singleton (mark_notMem_bytesToHex _)]

theorem numberOf_iterations : numberOf ("600000" : Text) = .fin passwordIterations := by
  decide +kernel

/-- **A verification compares keys**: a password that verifies against the hash of another has its
    key. -/
theorem derive_eq_of_verify {password set : Text} {salt : List UInt8}
    (h : verifyPassword p password (hashPassword p set salt) = some true) :
    p.derive set salt passwordIterations = p.derive password salt passwordIterations := by
  unfold verifyPassword at h
  rw [splitOn_hashPassword] at h
  dsimp only at h
  split at h
  · cases h
  rw [numberOf_iterations, show (Num.fin passwordIterations).toNat? = some passwordIterations by
    decide +kernel] at h
  dsimp only at h
  rw [if_neg (by decide), if_neg (by decide), hexToBytes_bytesToHex, hexToBytes_bytesToHex] at h
  exact of_decide_eq_true (Option.some.inj h)

/-- **A hash of the current work factor is not upgraded.** -/
theorem needsRehash_hashPassword (password : Text) (salt : List UInt8) :
    passwordNeedsRehash (hashPassword p password salt) = false := by
  unfold passwordNeedsRehash
  rw [splitOn_hashPassword]
  dsimp only
  rw [numberOf_iterations]
  simp

/-- **A stored password verifies as itself**: against its hash pass the passwords of its key and no
    others, and the hash is of the current work factor. -/
theorem hashPassword_verifies {password : Text} {salt : List UInt8} (hsalt : salt ≠ [])
    (hkey : p.derive password salt passwordIterations ≠ []) :
    (∀ given, verifyPassword p given (hashPassword p password salt) = some (decide
        (p.derive password salt passwordIterations = p.derive given salt passwordIterations))) ∧
      passwordNeedsRehash (hashPassword p password salt) = false := by
  refine ⟨fun given => ?_, needsRehash_hashPassword password salt⟩
  have hhex : ∀ {bytes : List UInt8}, bytes ≠ [] → bytesToHex bytes ≠ [] := by
    intro bytes hbytes hempty
    exact hbytes (by simpa [hempty] using length_bytesToHex bytes)
  unfold verifyPassword
  rw [splitOn_hashPassword]
  dsimp only
  rw [if_neg (by simp [hhex hsalt, hhex hkey]), numberOf_iterations,
    show (Num.fin passwordIterations).toNat? = some passwordIterations by decide +kernel]
  dsimp only
  rw [if_neg (by decide), if_neg (by decide), hexToBytes_bytesToHex, hexToBytes_bytesToHex]

/-! ### The invariant -/

/-- The frame is one of the call. -/
def Follows (c : Call) : Frame → Prop
  | .start call => call = c
  | .signingIn email password _ => c = .passwordSignin email password
  | .verifying v user => (∃ email, c = .passwordSignin email v.password) ∧
      v.userId = user.map UserRecord.id
  | .rehashing userId password user => (∃ email, c = .passwordSignin email password) ∧
      user.map UserRecord.id = some userId
  | .hashing userId password => c = .passwordSet userId password

/-- The stored hash is one of the password that was set. -/
def StoredAs (p : Platform) : (change stored : Option Text) → Prop
  | none, stored => stored = none
  | some set, stored => ∃ salt, stored = some (hashPassword p set salt)

/-- A call that will accept the password: the one that was set, or it has read the hash of that. -/
def Holds (p : Platform) (f : Frame) (change : Option Text) (password : Text) : Prop :=
  ∃ set, change = some set ∧ (password = set ∨
    ∃ v user salt, f = .verifying v user ∧ v.passwordHash = some (hashPassword p set salt))

def AccountStore.storedHash (userId : Text) (s : AccountStore) : Option Text :=
  (s.credentials.find? userId).map Credential.passwordHash

structure PasswordInv (g : Coop.Config (accounts p)) : Prop where
  follows : ∀ t c f, g.pool t = some (c, f) → Follows c f
  stored : ∀ userId change, lastChange userId g.log = some change →
    StoredAs p change (g.shared.storedHash userId)
  flight : ∀ t c f userId password change, g.pool t = some (c, f) →
    f.accepting? p = some (userId, password) → lastChange userId g.log = some change →
    Holds p f change password
  final : Final p g.log

/-! ### The hash of a user -/

section
variable {s : AccountStore}

theorem storedHash_setCredential (now : ℕ) (userId hash id : Text) :
    (s.setCredential now userId hash).storedHash id =
      if userId = id then some hash else s.storedHash id := by
  unfold AccountStore.storedHash setCredential
  rw [Rows.find?_upsert]
  split
  · cases s.credentials.find? id with
    | none => rfl
    | some row => rfl
  · rfl

theorem storedHash_passwordClear (userId id : Text) :
    (s.passwordClear userId).storedHash id = if userId = id then none else s.storedHash id := by
  unfold AccountStore.storedHash passwordClear
  rw [Rows.find?_filter]
  cases hrow : s.credentials.find? id with
  | none =>
    split
    · rfl
    · rfl
  | some row =>
    obtain ⟨-, rfl⟩ := Rows.find?_eq_some.mp hrow
    by_cases hid : userId = row.userId
    · rw [if_pos hid, Option.filter, hid]
      simp
    · rw [if_neg hid, Option.filter]
      simp [Ne.symm hid]

theorem storedHash_ensureUser (now : ℕ) (id email userId : Text) :
    (s.ensureUser p now id email).2.storedHash userId = s.storedHash userId := by
  unfold ensureUser
  dsimp only
  repeat' split
  all_goals rfl

theorem validatePassword_ok {password valid : Text} (h : validatePassword password = .ok valid) :
    password = valid := by
  unfold validatePassword at h
  split at h
  · cases h
  split at h
  · cases h
  · exact Except.ok.inj h

/-- A verification reads the stored hash of its user. -/
theorem passwordVerify_reads {now : ℕ} {email password : Text} {userId : Option Text}
    {v : Verifying}
    (h : s.passwordVerify now email userId password = .ok v) : v.password = password ∧
      v.userId = userId ∧ ∀ id, userId = some id → v.passwordHash = s.storedHash id := by
  unfold passwordVerify at h
  dsimp only at h
  split at h
  · cases h
  obtain rfl := Except.ok.inj h
  refine ⟨rfl, rfl, ?_⟩
  rintro id rfl
  rfl

end

theorem accepting_verifying {v : Verifying} {user : Option UserRecord} {userId password : Text} :
    (Frame.verifying v user).accepting? p = some (userId, password) ↔ v.userId = some userId ∧
      v.password = password ∧
      ∃ hash, v.passwordHash = some hash ∧ verifyPassword p v.password hash = some true := by
  show v.accepting? p = some (userId, password) ↔ _
  unfold AccountStore.Verifying.accepting?
  constructor
  · intro h
    split at h
    · rename_i id hash hid hhash
      split at h
      · rename_i hverify
        obtain ⟨rfl, rfl⟩ := Prod.mk.inj (Option.some.inj h)
        exact ⟨hid, rfl, hash, hhash, hverify⟩
      · cases h
    · cases h
  · rintro ⟨hid, rfl, hash, hhash, hverify⟩
    simp only [hid, hhash, if_pos hverify]

/-- A call that holds the password set accepts it. -/
theorem Holds.matchesChange {f : Frame} {change : Option Text} {userId password : Text}
    (h : Holds p f change password) (haccepting : f.accepting? p = some (userId, password)) :
    MatchesChange p change password := by
  obtain ⟨set, hchange, heq | ⟨v, user, salt, rfl, hhash⟩⟩ := h
  · exact ⟨set, hchange, .inl heq⟩
  · obtain ⟨-, rfl, hash, hhash', hverify⟩ := accepting_verifying.mp haccepting
    rw [hhash] at hhash'
    obtain rfl := Option.some.inj hhash'
    exact ⟨set, hchange, .inr ⟨salt, hverify⟩⟩

/-! ### The invariant along a run -/

section
variable {g g' : Coop.Config (accounts p)} {t : ℕ} {c : Call} {f : Frame} {i : Input}
  {out : Frame ⊕ Ret}

theorem lastChange_cons_none {entry : Call × Ret} {earlier : List (Call × Ret)}
    (h : returnedChange entry = none) (userId : Text) :
    lastChange userId (entry :: earlier) = lastChange userId earlier := by
  simp only [lastChange, h]

theorem lastChange_cons_some {entry : Call × Ret} {earlier : List (Call × Ret)} {id : Text}
    {change : Option Text} (h : returnedChange entry = some (id, change)) (userId : Text) :
    lastChange userId (entry :: earlier) =
      if id = userId then some change else lastChange userId earlier := by
  simp only [lastChange, h]

theorem PasswordInv.call (hg : PasswordInv g) (c : Call) :
    PasswordInv { g with pool := Function.update g.pool t (some (c, Frame.start c)) } := by
  refine ⟨?_, hg.stored, ?_, hg.final⟩
  · intro u c' f' hu
    rcases Coop.pool_update_cases hu with ⟨-, heq⟩ | ⟨-, hu⟩
    · obtain ⟨rfl, rfl⟩ := Prod.mk.inj (Option.some.inj heq)
      rfl
    · exact hg.follows u c' f' hu
  · intro u c' f' userId password change hu haccepting hchange
    rcases Coop.pool_update_cases hu with ⟨-, heq⟩ | ⟨-, hu⟩
    · obtain ⟨rfl, rfl⟩ := Prod.mk.inj (Option.some.inj heq)
      cases haccepting
    · exact hg.flight u c' f' userId password change hu haccepting hchange

/-- **A piece that goes on** to its next `await`, and leaves what is stored as the last change. -/
theorem PasswordInv.goesOn (hg : PasswordInv g) {f' : Frame}
    (hran : Coop.Ran g g' t c f i (.inl f'))
    (hstored : ∀ userId, g'.shared.storedHash userId = g.shared.storedHash userId)
    (hfollows : Follows c f')
    (hholds : ∀ userId password change, f'.accepting? p = some (userId, password) →
      lastChange userId g.log = some change → Holds p f' change password) : PasswordInv g' := by
  have hlog : g'.log = g.log := by
    rcases hran.own with ⟨-, -, -, hlog⟩ | ⟨r, hout, -, -⟩
    · exact hlog
    · cases hout
  refine ⟨?_, ?_, ?_, hlog ▸ hg.final⟩
  · intro u c' f'' hu
    rcases hran.pool u c' f'' hu with ⟨-, hold⟩ | ⟨-, rfl, hout⟩
    · exact hg.follows u c' f'' hold
    · obtain rfl := Sum.inl.inj hout
      exact hfollows
  · intro userId change hchange
    rw [hlog] at hchange
    rw [hstored]
    exact hg.stored userId change hchange
  · intro u c' f'' userId password change hu haccepting hchange
    rw [hlog] at hchange
    rcases hran.pool u c' f'' hu with ⟨-, hold⟩ | ⟨-, -, hout⟩
    · exact hg.flight u c' f'' userId password change hold haccepting hchange
    · obtain rfl := Sum.inl.inj hout
      exact hholds userId password change haccepting hchange

theorem Ran.returned {r : Ret} (hran : Coop.Ran g g' t c f i (.inr r)) :
    g'.log = (c, r) :: g.log ∧
      ∀ u c' f', g'.pool u = some (c', f') → g.pool u = some (c', f') := by
  constructor
  · rcases hran.own with ⟨f', hout, -, -⟩ | ⟨r', hout, -, hlog⟩
    · cases hout
    · obtain rfl := Sum.inr.inj hout
      exact hlog
  · intro u c' f' hu
    rcases hran.pool u c' f' hu with ⟨-, hold⟩ | ⟨-, -, hout⟩
    · exact hold
    · cases hout

/-- **A piece that returns** without a change; what it signs in has the password that was set. -/
theorem PasswordInv.returns (hg : PasswordInv g) {r : Ret} (hran : Coop.Ran g g' t c f i (.inr r))
    (hstored : ∀ userId change, lastChange userId g.log = some change →
      StoredAs p change (g'.shared.storedHash userId))
    (hreturned : returnedChange (c, r) = none)
    (hfinal : ∀ user password, acceptedIn (c, r) = some (user, password) →
      ∀ change, lastChange user.id g.log = some change → MatchesChange p change password) :
    PasswordInv g' := by
  obtain ⟨hlog, hpool⟩ := Ran.returned hran
  refine ⟨?_, ?_, ?_, ?_⟩
  · intro u c' f' hu
    exact hg.follows u c' f' (hpool u c' f' hu)
  · intro userId change hchange
    rw [hlog, lastChange_cons_none hreturned] at hchange
    exact hstored userId change hchange
  · intro u c' f' userId password change hu haccepting hchange
    rw [hlog, lastChange_cons_none hreturned] at hchange
    exact hg.flight u c' f' userId password change (hpool u c' f' hu) haccepting hchange
  · rw [hlog]
    exact ⟨hg.final, hfinal⟩

/-- **A piece that writes a change** and returns, with no sign-in in flight that will accept another
    password. -/
theorem PasswordInv.changes (hg : PasswordInv g) {r : Ret} {userId : Text} {change : Option Text}
    (hran : Coop.Ran g g' t c f i (.inr r))
    (hreturned : returnedChange (c, r) = some (userId, change))
    (haccepted : acceptedIn (c, r) = none) (hown : StoredAs p change (g'.shared.storedHash userId))
    (hother : ∀ id, userId ≠ id → g'.shared.storedHash id = g.shared.storedHash id)
    (hsettled : ∀ u c' f' password, g.pool u = some (c', f') →
      f'.accepting? p = some (userId, password) → change = some password) : PasswordInv g' := by
  obtain ⟨hlog, hpool⟩ := Ran.returned hran
  refine ⟨?_, ?_, ?_, ?_⟩
  · intro u c' f' hu
    exact hg.follows u c' f' (hpool u c' f' hu)
  · intro id change' hchange
    rw [hlog, lastChange_cons_some hreturned] at hchange
    split at hchange
    · rename_i hid
      obtain rfl := Option.some.inj hchange
      exact hid ▸ hown
    · rename_i hid
      rw [hother id hid]
      exact hg.stored id change' hchange
  · intro u c' f' id password change' hu haccepting hchange
    rw [hlog, lastChange_cons_some hreturned] at hchange
    split at hchange
    · rename_i hid
      subst hid
      obtain rfl := Option.some.inj hchange
      exact ⟨password, hsettled u c' f' password (hpool u c' f' hu) haccepting, .inl rfl⟩
    · exact hg.flight u c' f' id password change' (hpool u c' f' hu) haccepting hchange
  · rw [hlog]
    refine ⟨hg.final, ?_⟩
    intro user password haccept
    rw [haccepted] at haccept
    cases haccept

end

/-! ### One step -/

section
variable {g g' : Coop.Config (accounts p)} {t : ℕ} {c : Call} {i : Input} {out : Frame ⊕ Ret}

/-- A piece that returns and leaves the passwords alone, without having signed anyone in. -/
theorem PasswordInv.returnsQuietly (hg : PasswordInv g) {f : Frame} {r : Ret}
    (hran : Coop.Ran g g' t c f i (.inr r))
    (hstored : ∀ userId, g'.shared.storedHash userId = g.shared.storedHash userId)
    (hreturned : returnedChange (c, r) = none) (haccepted : acceptedIn (c, r) = none) :
    PasswordInv g' := by
  refine hg.returns hran ?_ hreturned ?_
  · intro userId change hchange
    rw [hstored]
    exact hg.stored userId change hchange
  · intro user password haccept
    rw [haccepted] at haccept
    cases haccept

/-- The statements after a verification leave the passwords alone. -/
theorem storedHash_recorded {s : AccountStore} (v : Verifying) (userId : Text) :
    (s.recordSuccess v).storedHash userId = s.storedHash userId ∧
      (s.recordFailure v).storedHash userId = s.storedHash userId := ⟨rfl, rfl⟩

/-- **A verification whose hash is there.** -/
theorem PasswordInv.verified (hg : PasswordInv g) {v : Verifying} {user : Option UserRecord}
    {ok : Bool}
    (hran : Coop.Ran g g' t c (.verifying v user) i out)
    (hverify : verifyPassword p v.password (v.passwordHash.getD dummyHash) = some ok)
    (heq : Auth.verified v user ok g.shared = (g'.shared, out)) : PasswordInv g' := by
  obtain ⟨⟨email, rfl⟩, huser⟩ := hg.follows t c _ hran.before
  unfold Auth.verified at heq
  split at heq
  · rename_i hpasses
    obtain ⟨⟨hok, hhash⟩, hid⟩ : (ok = true ∧ v.passwordHash.isSome = true) ∧
        v.userId.any (fun id => !id.isEmpty) = true := by
      rw [Verifying.passes, Bool.and_eq_true, Bool.and_eq_true] at hpasses
      exact hpasses
    obtain ⟨hash, hhash⟩ := Option.isSome_iff_exists.mp hhash
    obtain ⟨userId, hid, -⟩ := (Option.any_eq_true _ _).mp hid
    subst hok
    rw [hhash] at hverify
    have haccepting : (Frame.verifying v user).accepting? p = some (userId, v.password) :=
      accepting_verifying.mpr ⟨hid, rfl, hash, hhash, hverify⟩
    have hholds : ∀ change, lastChange userId g.log = some change →
        Holds p (.verifying v user) change v.password := fun change =>
      hg.flight t _ _ userId v.password change hran.before haccepting
    -- a sign-in that returns now is with a password that it holds
    have hsigned : ∀ signed password, acceptedIn (.passwordSignin email v.password,
        .signedIn (.ok user)) = some (signed, password) → ∀ change,
        lastChange signed.id g.log = some change → MatchesChange p change password := by
      intro signed password haccept change hchange
      cases user with
      | none => cases haccept
      | some user =>
        obtain ⟨rfl, rfl⟩ := Prod.mk.inj (Option.some.inj haccept)
        rw [Option.map_some, hid] at huser
        obtain rfl := Option.some.inj huser
        exact (hholds change hchange).matchesChange haccepting
    have hstored : ∀ id, (g.shared.recordSuccess v).storedHash id = g.shared.storedHash id :=
      fun id => (storedHash_recorded v id).1
    simp only [hid, hhash] at heq
    split at heq
    · rename_i hneeds
      split at heq
      · obtain ⟨hshared, rfl⟩ := Prod.mk.inj heq
        exact hg.returnsQuietly hran (hshared ▸ hstored) rfl rfl
      · rename_i password hvalid
        obtain ⟨hshared, rfl⟩ := Prod.mk.inj heq
        obtain rfl : v.password = password := validatePassword_ok hvalid
        refine hg.goesOn hran (hshared ▸ hstored) ⟨⟨email, rfl⟩, huser ▸ hid⟩ ?_
        intro id password change haccept hchange
        obtain ⟨rfl, rfl⟩ := Prod.mk.inj (Option.some.inj haccept)
        obtain ⟨set, hset, hsame | ⟨v', user', salt, hframe, hhash'⟩⟩ := hholds change hchange
        · exact ⟨set, hset, .inl hsame⟩
        · -- a hash that was stored by a change is not upgraded
          obtain ⟨rfl, rfl⟩ := Frame.verifying.inj hframe
          rw [hhash] at hhash'
          rw [Option.some.inj hhash', needsRehash_hashPassword] at hneeds
          cases hneeds
    · obtain ⟨hshared, rfl⟩ := Prod.mk.inj heq
      refine hg.returns hran ?_ rfl hsigned
      intro id change hchange
      rw [← hshared, hstored]
      exact hg.stored id change hchange
  · obtain ⟨hshared, rfl⟩ := Prod.mk.inj heq
    exact hg.returnsQuietly hran (fun id => hshared ▸ (storedHash_recorded v id).2) rfl rfl

/-- **Step lemma.** -/
theorem PasswordInv.step {e : Coop.Event (accounts p)} (hg : PasswordInv g)
    (hsettled : Settled p g e)
    (h : Coop.step g e = some g') : PasswordInv g' := by
  rcases Coop.step_ran h with ⟨t, c, -, -, rfl⟩ | ⟨t, i, c, f, out, rfl, hran⟩
  · exact hg.call c
  · have hpiece : piece p g.shared f i = (g'.shared, out) := Option.some.inj hran.runs
    have hfollows := hg.follows t c f hran.before
    cases f with
    | start call =>
      obtain rfl : call = c := hfollows
      cases call with
      | ensureUser email =>
        obtain ⟨hshared, rfl⟩ := Prod.mk.inj hpiece
        refine hg.returnsQuietly hran ?_ rfl rfl
        intro userId
        rw [← hshared]
        exact storedHash_ensureUser ..
      | passwordSet userId password =>
        simp only [piece] at hpiece
        split at hpiece
        · obtain ⟨hshared, rfl⟩ := Prod.mk.inj hpiece
          exact hg.returnsQuietly hran (fun _ => by rw [hshared]) rfl rfl
        · rename_i password' hvalid
          obtain ⟨hshared, rfl⟩ := Prod.mk.inj hpiece
          obtain rfl : password = password' := validatePassword_ok hvalid
          exact hg.goesOn hran (fun _ => by rw [hshared]) rfl
            (fun _ _ _ haccepting => absurd haccepting.symm (Option.some_ne_none _))
      | passwordClear userId =>
        obtain ⟨hshared, rfl⟩ := Prod.mk.inj hpiece
        refine hg.changes hran rfl rfl ?_ ?_ ?_
        · rw [← hshared, storedHash_passwordClear, if_pos rfl]
          rfl
        · intro id hid
          rw [← hshared, storedHash_passwordClear, if_neg hid]
        · exact hsettled _ _ userId none hran.before rfl
      | passwordSignin email password =>
        obtain ⟨hshared, rfl⟩ := Prod.mk.inj hpiece
        exact hg.goesOn hran (fun _ => by rw [hshared]) rfl
            (fun _ _ _ haccepting => absurd haccepting.symm (Option.some_ne_none _))
    | signingIn email password user =>
      obtain rfl : c = .passwordSignin email password := hfollows
      simp only [piece] at hpiece
      split at hpiece
      · obtain ⟨hshared, rfl⟩ := Prod.mk.inj hpiece
        exact hg.returnsQuietly hran (fun _ => by rw [hshared]) rfl rfl
      · rename_i v hv
        obtain ⟨hshared, rfl⟩ := Prod.mk.inj hpiece
        obtain ⟨hpassword, huserId, hreads⟩ := passwordVerify_reads hv
        refine hg.goesOn hran (fun _ => by rw [hshared]) ⟨⟨email, by rw [hpassword]⟩, huserId⟩ ?_
        intro userId password' change haccepting hchange
        obtain ⟨hid, -, hash, hhash, -⟩ := accepting_verifying.mp haccepting
        have hread := hreads userId (huserId.symm.trans hid)
        have hstored := hg.stored userId change hchange
        rw [← hread, hhash] at hstored
        cases change with
        | none => cases hstored
        | some set =>
          obtain ⟨salt, hsalt⟩ := hstored
          exact ⟨set, rfl, .inr ⟨v, user, salt, rfl, hhash.trans hsalt⟩⟩
    | verifying v user =>
      simp only [piece] at hpiece
      obtain ⟨⟨email, rfl⟩, -⟩ := hfollows
      split at hpiece
      · obtain ⟨hshared, rfl⟩ := Prod.mk.inj hpiece
        exact hg.returnsQuietly hran (fun _ => by rw [hshared]) rfl rfl
      · obtain ⟨hshared, rfl⟩ := Prod.mk.inj hpiece
        exact hg.returnsQuietly hran (fun _ => by rw [hshared]) rfl rfl
      · rename_i ok _ hverify
        exact hg.verified hran hverify hpiece
    | rehashing userId password user =>
      obtain ⟨⟨email, rfl⟩, huser⟩ := hfollows
      simp only [piece] at hpiece
      split at hpiece
      · obtain ⟨hshared, rfl⟩ := Prod.mk.inj hpiece
        exact hg.returnsQuietly hran (fun _ => by rw [hshared]) rfl rfl
      · obtain ⟨hshared, rfl⟩ := Prod.mk.inj hpiece
        -- the upgraded hash is of the password that was set
        have hset : ∀ change, lastChange userId g.log = some change → change = some password := by
          intro change hchange
          obtain ⟨set, hset, hsame | ⟨v, user', salt, hframe, -⟩⟩ :=
            hg.flight t _ _ userId password change hran.before rfl hchange
          · rw [hset, hsame]
          · cases hframe
        refine hg.returns hran ?_ rfl ?_
        · intro id change hchange
          rw [← hshared, storedHash_setCredential]
          split
          · rename_i hid
            subst hid
            rw [hset change hchange]
            exact ⟨i.salt, rfl⟩
          · exact hg.stored id change hchange
        · intro signed password' haccept change hchange
          cases user with
          | none => cases haccept
          | some user =>
            obtain ⟨rfl, rfl⟩ := Prod.mk.inj (Option.some.inj haccept)
            obtain rfl := Option.some.inj huser
            exact ⟨password, hset change hchange, .inl rfl⟩
    | hashing userId password =>
      obtain rfl : c = .passwordSet userId password := hfollows
      simp only [piece] at hpiece
      split at hpiece
      · obtain ⟨hshared, rfl⟩ := Prod.mk.inj hpiece
        exact hg.returnsQuietly hran (fun _ => by rw [hshared]) rfl rfl
      · rename_i hrejected
        obtain ⟨hshared, rfl⟩ := Prod.mk.inj hpiece
        refine hg.changes hran rfl rfl ?_ ?_ ?_
        · rw [← hshared, storedHash_setCredential, if_pos rfl]
          exact ⟨i.salt, rfl⟩
        · intro id hid
          rw [← hshared, storedHash_setCredential, if_neg hid]
        · exact hsettled _ _ userId (some password) hran.before (if_pos hrejected)

end

theorem PasswordInv.idle (s : AccountStore) : PasswordInv (@Coop.idle (accounts p) s) := by
  refine ⟨?_, ?_, ?_, trivial⟩
  · intro t c f hpool
    cases hpool
  · intro userId change hchange
    cases hchange
  · intro t c f userId password change hpool
    cases hpool

/-- **A password change is final** in every run in which no change is written while a sign-in of the
    user in flight will accept another password; whatever the accounts are at its start. -/
theorem final_settled {s : AccountStore} {g : Coop.Config (accounts p)}
    (h : Reaches Coop.step (Settled p) (@Coop.idle (accounts p) s) g) : Final p g.log :=
  (h.invariant PasswordInv (fun _ _ _ hg hsettled hstep => hg.step hsettled hstep) (.idle s)).final

/-! ### Two runs -/

/-- Where no other call is in flight nothing will be accepted. -/
theorem settled_of_solo {g : Coop.Config (accounts p)} {e : Coop.Event (accounts p)}
    (h : Coop.Solo g e) : Settled p g e := by
  cases e with
  | call t c => trivial
  | resume t i =>
    intro c f userId change hpool hchanging u c' f' password hu haccepting
    by_cases hut : u = t
    · -- the call that writes the change is no sign-in
      subst hut
      obtain ⟨-, rfl⟩ := Prod.mk.inj (Option.some.inj (hpool.symm.trans hu))
      cases f with
      | start call => cases haccepting
      | signingIn email password user => cases hchanging
      | verifying v user => cases hchanging
      | rehashing id password user => cases hchanging
      | hashing id password => cases haccepting
    · have hnone := h u hut
      rw [hu] at hnone
      cases hnone

/-- A password is set, used, replaced, and the new one is used. -/
def changedRun : List (Coop.Event (accounts clearAccounts)) :=
  accountRun ++ signin 1 "correct horse" ++
  alone 0 (.passwordSet "u" "battery staple") [at_ 2, at_ 2] ++
  signin 3 "correct horse" ++ signin 4 "battery staple"

theorem final_settled_changedRun :
    ∃ g, execGuarded Coop.step (Coop.soloBelow 1) (freshAccounts clearAccounts) changedRun =
        some g ∧
      Final clearAccounts g.log ∧
      (g.log.filterMap acceptedIn).map Prod.snd =
        (["battery staple", "correct horse"] : List Text) := by
  have hrun : (execGuarded Coop.step (Coop.soloBelow 1) (freshAccounts clearAccounts)
      changedRun).map (fun g => (g.log.filterMap acceptedIn).map Prod.snd) =
        some (["battery staple", "correct horse"] : List Text) := by
    decide +kernel
  obtain ⟨g, hg, hseen⟩ := Option.map_eq_some_iff.mp hrun
  have hsolo := Coop.reaches_of_soloBelow (fun _ _ => by rfl) hg
  exact ⟨g, hg, final_settled (hsolo.mono fun _ _ => settled_of_solo), hseen⟩

def signedUser : UserRecord := ⟨"u", "a@b.c", 0⟩

theorem hashPassword_verifies_letters : let hash := hashPassword clearAccounts "a" [7]
    (∀ given, verifyPassword clearAccounts given hash = some (decide
      (clearAccounts.derive "a" [7] passwordIterations =
        clearAccounts.derive given [7] passwordIterations))) ∧ passwordNeedsRehash hash = false :=
  hashPassword_verifies (by decide) (by decide)

/-- A user whose password was hashed with an older work factor. -/
def olderAccounts : AccountStore where
  users := ⟨[signedUser], by decide⟩
  credentials := ⟨[⟨"u", "pbkdf2-sha256$1000$07$" ++
    bytesToHex (clearAccounts.derive "correct horse" [7] 1000), 0⟩], by decide⟩
  signinAttempts := ⟨[], List.nodup_nil⟩
  appHandoffs := ⟨[], List.nodup_nil⟩
  verifications := []

/-- The sign-in is about to store the upgraded hash when the password is set anew; then there is
    another sign-in. -/
def upgradedRun : List (Coop.Event (accounts clearAccounts)) :=
  alone 1 (.passwordSignin "a@b.c" "correct horse") [at_ 1, at_ 1, at_ 1] ++
  alone 0 (.passwordSet "u" "battery staple") [at_ 2, at_ 2] ++
  [.resume 1 (at_ 3)] ++ signin 4 "correct horse"

/-- **Race.**  The upgrade overwrites the new password with the old one: a sign-in that begins
    afterwards is accepted with the old one. -/
theorem upgradeRace :
    ∃ g, exec Coop.step (@Coop.idle (accounts clearAccounts) olderAccounts) upgradedRun = some g ∧
      Reaches Coop.step (fun _ _ => True) (@Coop.idle (accounts clearAccounts) olderAccounts) g ∧
      lastChange "u" g.log = some (some ("battery staple" : Text)) ∧
      g.log.head?.bind acceptedIn = some (signedUser, ("correct horse" : Text)) ∧
      ¬ Final clearAccounts g.log := by
  have hrun : (exec Coop.step (@Coop.idle (accounts clearAccounts) olderAccounts) upgradedRun).map
      (fun g => (lastChange "u" g.log, g.log.head?.bind acceptedIn, lastChange "u" g.log.tail)) =
        some (some (some ("battery staple" : Text)), some (signedUser, ("correct horse" : Text)),
          some (some ("battery staple" : Text))) := by
    decide +kernel
  obtain ⟨g, hg, hseen⟩ := Option.map_eq_some_iff.mp hrun
  obtain ⟨hchange, hrest⟩ := Prod.mk.inj hseen
  obtain ⟨haccepted, hbefore⟩ := Prod.mk.inj hrest
  refine ⟨g, hg, reaches_of_exec hg, hchange, haccepted, ?_⟩
  intro hfinal
  cases hlog : g.log with
  | nil =>
    rw [hlog] at haccepted
    cases haccepted
  | cons entry earlier =>
    rw [hlog] at haccepted hbefore hfinal
    obtain ⟨set, hset, hsame | ⟨salt, hverify⟩⟩ := hfinal.2 _ _ haccepted _ hbefore
    · rw [← Option.some.inj hset] at hsame
      exact absurd hsame (by decide)
    · rw [← Option.some.inj hset] at hverify
      have hkey : clearAccounts.derive "battery staple" salt passwordIterations =
        clearAccounts.derive "correct horse" salt passwordIterations := derive_eq_of_verify hverify
      exact absurd hkey (show ("battery staple" : Text).map (fun c => UInt8.ofNat c.toNat) ≠
        ("correct horse" : Text).map (fun c => UInt8.ofNat c.toNat) by decide)

end KodyCelld.Auth
