import KodyCelld.Errors
import KodyCelld.Lib.Hex
import KodyCelld.Lib.Machine
import KodyCelld.Lib.Rows

namespace KodyCelld.Auth

open KodyCelld.Lib

/-!
# Accounts (`auth/account-store.ts`, `auth/password.ts`, `cells/registry-cell.ts`)

The registry's users, their passwords, the failed sign-ins of each email and the app handoffs that
were used.  A password sign-in is cut at its `await`s: the look-up of the user, the password hash, and
the hash of the upgraded password.

* `passwordVerify`, `passwordVerified` — the two halves of a verification, around its hash;
* `appHandoffBurn` — the use of a handoff id;
* `accounts` — the system of sign-ins and password changes.

Beside what the source stores the store lists the verifications that were carried out, with the lock
that each one left (`AccountStore.verifications`); nothing the source computes depends on it.
-/

/-! ### Passwords -/

def passwordMinLength : ℕ := 12

def passwordMaxLength : ℕ := 256

def passwordIterations : ℕ := 600000

/-- Failed password attempts per email before a temporary lock. -/
def signinMaxFailures : ℕ := 5

def signinLockMs : ℕ := 15 * 60 * 1000

/-- What the registry takes from the language and the platform: `toLowerCase` and PBKDF2. -/
structure Platform where
  toLowerCase : Text → Text
  derive : Text → List UInt8 → ℕ → List UInt8

def validatePassword (password : Text) : Except Thrown Text :=
  if utf16Length password < passwordMinLength then
    .error (.kody "invalid_password"
      ("Passwords need at least " ++ natText passwordMinLength ++ " characters."))
  else if passwordMaxLength < utf16Length password then
    .error (.kody "invalid_password"
      ("Passwords may have at most " ++ natText passwordMaxLength ++ " characters."))
  else .ok password

variable (p : Platform)

/-- `hashPassword` with the salt that was drawn. -/
def hashPassword (password : Text) (salt : List UInt8) : Text :=
  "pbkdf2-sha256$" ++ natText passwordIterations ++ "$" ++ bytesToHex salt ++ "$" ++
    bytesToHex (p.derive password salt passwordIterations)

/-- `verifyPassword`; `none` where `deriveBits` throws on the iterations. -/
def verifyPassword (password stored : Text) : Option Bool :=
  match stored.splitOn '$' with
  | scheme :: iterationsRaw :: saltHex :: hashHex :: _ =>
    if scheme ≠ "pbkdf2-sha256" ∨ iterationsRaw = [] ∨ saltHex = [] ∨ hashHex = [] then some false
    else match (numberOf iterationsRaw).toNat? with
      | none => some false
      | some iterations =>
        if iterations < 1000 then some false
        else if 4294967295 < iterations then none
        else
          some (decide (hexToBytes hashHex = p.derive password (hexToBytes saltHex) iterations))
  | _ => some false

/-- True when a stored hash uses an older work factor and should be re-hashed on next sign-in. -/
def passwordNeedsRehash (stored : Text) : Bool :=
  let iterations := match stored.splitOn '$' with
    | _ :: iterationsRaw :: _ => numberOf iterationsRaw
    | _ => .nan
  !(Num.lt (.fin passwordIterations) iterations || decide (iterations = .fin passwordIterations))

/-- Burns the same CPU for an account without a password. -/
def dummyHash : Text :=
  "pbkdf2-sha256$600000$" ++ List.replicate 32 '0' ++ "$" ++ List.replicate 64 '0'

/-! ### The store -/

structure UserRecord where
  id : Text
  email : Text
  createdAt : ℕ
  deriving DecidableEq, Repr

structure Credential where
  userId : Text
  passwordHash : Text
  updatedAt : ℕ
  deriving DecidableEq, Repr

/-- A row of `signin_attempts`. -/
structure SigninAttempt where
  email : Text
  failures : ℕ
  lockedUntil : Option ℕ
  deriving DecidableEq, Repr

/-- A row of `app_handoffs`. -/
structure AppHandoff where
  jti : Text
  expiresAt : ℚ
  deriving DecidableEq

/-- A password verification that was carried out, and the lock that it left. -/
structure Verification where
  email : Text
  startedAt : ℕ
  ok : Bool
  lockedUntil : Option ℕ
  deriving DecidableEq, Repr

structure AccountStore where
  users : Rows UserRecord.email
  credentials : Rows Credential.userId
  signinAttempts : Rows SigninAttempt.email
  appHandoffs : Rows AppHandoff.jti
  /-- The password verifications so far, latest first. -/
  verifications : List Verification

def emptyAccounts : AccountStore :=
  ⟨⟨[], List.nodup_nil⟩, ⟨[], List.nodup_nil⟩, ⟨[], List.nodup_nil⟩, ⟨[], List.nodup_nil⟩, []⟩

/-- `email.trim().toLowerCase()` -/
def normalizeEmail (email : Text) : Text := p.toLowerCase (trim email)

namespace AccountStore

/-- `/^[^@\s]+@[^@\s]+\.[^@\s]+$/` -/
def isEmail (email : Text) : Bool :=
  email.all (fun c => !isSpace c) &&
    match email.splitOn '@' with
    | [name, host] => !name.isEmpty &&
        -- some dot of the host has text on both sides
        (List.range host.length).any fun i =>
          decide (host[i]? = some '.') && decide (0 < i) && decide (i + 1 < host.length)
    | _ => false

def getUserByEmail (email : Text) (s : AccountStore) : Option UserRecord :=
  s.users.find? (normalizeEmail p email)

/-- `ensureUser` with the id that was drawn. -/
def ensureUser (now : ℕ) (id email : Text) (s : AccountStore) :
    Except Thrown (UserRecord × Bool) × AccountStore :=
  let normalized := normalizeEmail p email
  if !isEmail normalized then
    (.error (.kody "invalid_email" "A valid email address is required."), s)
  else match s.getUserByEmail p normalized with
    | some existing => (.ok (existing, false), s)
    | none =>
      let user : UserRecord := ⟨id, normalized, now⟩
      if s.users.rows.any fun other => decide (other.id = id) then
        (.error (.error "UNIQUE constraint failed: users.id"), s)
      else match s.users.insert? user with
        | none => (.error (.error "UNIQUE constraint failed: users.email"), s)
        | some users => (.ok (user, true), { s with users := users })

def setCredential (now : ℕ) (userId hash : Text) (s : AccountStore) : AccountStore :=
  { s with
    credentials := s.credentials.upsert ⟨userId, hash, now⟩
      (fun row => { row with passwordHash := hash, updatedAt := now }) fun _ => rfl }

def passwordClear (userId : Text) (s : AccountStore) : AccountStore :=
  { s with credentials := s.credentials.filter fun row => decide (row.userId ≠ userId) }

def attempt (email : Text) (s : AccountStore) : Option SigninAttempt :=
  s.signinAttempts.find? email

def signinLocked : Thrown :=
  .kody "signin_locked" "Too many failed sign-in attempts. Try again in a few minutes." 429

/-- What a verification keeps while its hash is awaited. -/
structure Verifying where
  email : Text
  userId : Option Text
  password : Text
  now : ℕ
  attempt : Option SigninAttempt
  passwordHash : Option Text
  deriving DecidableEq, Repr

/-- `passwordVerify` up to its hash; its email is normalised. -/
def passwordVerify (now : ℕ) (email : Text) (userId : Option Text) (password : Text)
    (s : AccountStore) : Except Thrown Verifying :=
  let attempt := s.attempt email
  if (attempt.bind SigninAttempt.lockedUntil).any fun lockedUntil => decide (now < lockedUntil) then
    .error signinLocked
  else
    .ok ⟨email, userId, password, now, attempt,
      (userId.bind s.credentials.find?).map Credential.passwordHash⟩

/-- The failures that a failed verification writes: those it read, and itself. -/
def Verifying.failures (v : Verifying) : ℕ := (v.attempt.map SigninAttempt.failures).getD 0 + 1

/-- The lock that a failed verification sets. -/
def Verifying.lock (v : Verifying) : Option ℕ :=
  if signinMaxFailures ≤ v.failures then some (v.now + signinLockMs) else none

/-- The row that a failed verification writes. -/
def Verifying.failedRow (v : Verifying) : SigninAttempt :=
  ⟨v.email, if v.lock.isSome then 0 else v.failures, v.lock⟩

/-- The verification passes: the user has a password and it is the one given. -/
def Verifying.passes (v : Verifying) (ok : Bool) : Bool :=
  ok && v.passwordHash.isSome && v.userId.any fun id => !id.isEmpty

/-- The statements after a failed verification. -/
def recordFailure (v : Verifying) (s : AccountStore) : AccountStore :=
  { s with
    signinAttempts := s.signinAttempts.upsert v.failedRow
      (fun row => { row with
        failures := v.failedRow.failures, lockedUntil := v.failedRow.lockedUntil }) fun _ => rfl
    verifications := ⟨v.email, v.now, false, v.lock⟩ :: s.verifications }

/-- The statements after one that passed. -/
def recordSuccess (v : Verifying) (s : AccountStore) : AccountStore :=
  { s with
    signinAttempts := s.signinAttempts.filter fun row => decide (row.email ≠ v.email)
    verifications := ⟨v.email, v.now, true, none⟩ :: s.verifications }

/-- Burns a package-app handoff id; false means it was already used. -/
def appHandoffBurn (now : ℕ) (jti : Text) (expiresAt : ℚ) (s : AccountStore) :
    Bool × AccountStore :=
  let kept := s.appHandoffs.filter fun row => !decide (row.expiresAt ≤ now)
  match kept.insert? ⟨jti, expiresAt⟩ with
  | none => (false, { s with appHandoffs := kept })
  | some burned => (true, { s with appHandoffs := burned })

end AccountStore

open AccountStore

/-! ### Calls -/

inductive Call where
  | ensureUser (email : Text)
  | passwordSet (userId password : Text)
  | passwordClear (userId : Text)
  | passwordSignin (email password : Text)
  deriving DecidableEq, Repr

/-- Where a call stands. -/
inductive Frame where
  | start (call : Call)
  | signingIn (email password : Text) (user : Option UserRecord)
  | verifying (v : Verifying) (user : Option UserRecord)
  | rehashing (userId password : Text) (user : Option UserRecord)
  | hashing (userId password : Text)
  deriving DecidableEq, Repr

/-- What a call returned. -/
inductive Ret where
  | ensured (answer : Except Thrown (UserRecord × Bool))
  | done (answer : Except Thrown Unit)
  | signedIn (answer : Except Thrown (Option UserRecord))

/-- What the outside supplies to one piece: the clock, an id or a salt, and whether an awaited hash
    was rejected. -/
structure Input where
  now : ℕ
  id : Text
  salt : List UInt8
  rejected : Option Text

/-- A verification whose hash has been computed. -/
def verified (v : Verifying) (user : Option UserRecord) (ok : Bool) (s : AccountStore) :
    AccountStore × (Frame ⊕ Ret) :=
  if v.passes ok then
    let s := s.recordSuccess v
    match v.userId, v.passwordHash with
    | some userId, some hash =>
      if passwordNeedsRehash hash then
        match validatePassword v.password with
        | .error e => (s, .inr (.signedIn (.error e)))
        | .ok password => (s, .inl (.rehashing userId password user))
      else (s, .inr (.signedIn (.ok user)))
    | _, _ => (s, .inr (.signedIn (.ok user)))
  else (s.recordFailure v, .inr (.signedIn (.ok none)))

/-- Runs a call to its next `await` or to its return. -/
def piece (s : AccountStore) : Frame → Input → AccountStore × (Frame ⊕ Ret)
  | .start (.ensureUser email), i =>
    ((s.ensureUser p i.now i.id email).2, .inr (.ensured (s.ensureUser p i.now i.id email).1))
  | .start (.passwordSet userId password), _ =>
    match validatePassword password with
    | .error e => (s, .inr (.done (.error e)))
    | .ok password => (s, .inl (.hashing userId password))
  | .start (.passwordClear userId), _ => (s.passwordClear userId, .inr (.done (.ok ())))
  | .start (.passwordSignin email password), _ =>
    (s, .inl (.signingIn email password (s.getUserByEmail p email)))
  | .signingIn email password user, i =>
    match s.passwordVerify i.now (normalizeEmail p email) (user.map UserRecord.id) password with
    | .error e => (s, .inr (.signedIn (.error e)))
    | .ok v => (s, .inl (.verifying v user))
  | .verifying v user, i =>
    match i.rejected, verifyPassword p v.password (v.passwordHash.getD dummyHash) with
    | some message, _ => (s, .inr (.signedIn (.error (.error message))))
    | none, none => (s, .inr (.signedIn (.error (.rangeError "Invalid typed array length"))))
    | none, some ok => verified v user ok s
  | .rehashing userId password user, i =>
    match i.rejected with
    | some message => (s, .inr (.signedIn (.error (.error message))))
    | none =>
      (s.setCredential i.now userId (hashPassword p password i.salt), .inr (.signedIn (.ok user)))
  | .hashing userId password, i =>
    match i.rejected with
    | some message => (s, .inr (.done (.error (.error message))))
    | none =>
      (s.setCredential i.now userId (hashPassword p password i.salt), .inr (.done (.ok ())))

/-- The registry as a system of concurrent calls. -/
abbrev accounts : Coop where
  Shared := AccountStore
  Call := Call
  Frame := Frame
  Input := Input
  Ret := Ret
  start := Frame.start
  resume := fun s f i => some (piece p s f i)

/-- The registry before its first call. -/
def freshAccounts : Coop.Config (accounts p) := @Coop.idle (accounts p) emptyAccounts

end KodyCelld.Auth
