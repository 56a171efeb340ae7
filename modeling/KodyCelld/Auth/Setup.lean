import KodyCelld.Auth.AccountStore

namespace KodyCelld.Auth.Setup

open KodyCelld.Lib

/-!
# First-run setup (`web/signin.ts`, `cells/registry-cell.ts`)

`/setup` makes the very first account.  The handler asks the registry twice whether it has no user,
and then creates the account, sets its password and starts a session; each of these is a call to
another object, and between two of them any other submission may run.

* `handleSetup` — the handler, cut at its `await`s;
* `SetupOnce` — at most one submission does any of these, and every other one is sent to sign-in;
* `Alone` — the condition on a step: an account is created only while there is none;
* `setup_once` — on runs whose steps are so the first holds;
* `setupRace` — on others two submissions both pass the second check.
-/

/-! ### The registry -/

/-- A row of `tokens`. -/
structure TokenRow where
  tokenHash : Text
  userId : Text
  label : Text
  createdAt : ℕ
  deriving DecidableEq

/-- A row of `sessions`. -/
structure SessionRow where
  idHash : Text
  id : Text
  userId : Text
  createdAt : ℕ
  expiresAt : ℕ
  userAgent : Option Text
  deriving DecidableEq

/-- What setups read and write of the registry. -/
structure Registry where
  accounts : AccountStore
  tokens : Rows TokenRow.tokenHash
  sessions : Rows SessionRow.idHash

/-- `userCount` -/
def userCount (s : Registry) : ℕ := s.accounts.users.rows.length

/-- The server: its platform, `sha256Hex`, and `KODY_ADMIN_TOKEN`. -/
structure Server where
  platform : Platform
  sha256Hex : Text → Text
  adminToken : Text

/-- `sessionTtlMs` -/
def sessionTtlMs : ℕ := 30 * 24 * 60 * 60 * 1000

variable (server : Server)

/-- `createUser` up to its first `await`: the account of an email, made if there is none. -/
def createUser (now : ℕ) (id email : Text) (s : Registry) :
    Except Thrown (UserRecord × Bool) × Registry :=
  let email := normalizeEmail server.platform email
  if !AccountStore.isEmail email then
    (.error (.kody "invalid_email" "A valid email address is required."), s)
  else match s.accounts.users.find? email with
    | some existing => (.ok (existing, false), s)
    | none =>
      let user : UserRecord := ⟨id, email, now⟩
      if s.accounts.users.rows.any fun other => decide (other.id = id) then
        (.error (.error "UNIQUE constraint failed: users.id"), s)
      else match s.accounts.users.insert? user with
        | none => (.error (.error "UNIQUE constraint failed: users.email"), s)
        | some users =>
          (.ok (user, true), { s with accounts := { s.accounts with users := users } })

/-- The end of `issueToken`, when its hash has been computed. -/
def storeToken (now : ℕ) (token userId label : Text) (s : Registry) : Except Thrown Registry :=
  match s.tokens.insert? ⟨server.sha256Hex token, userId, label, now⟩ with
  | none => .error (.error "UNIQUE constraint failed: tokens.token_hash")
  | some tokens => .ok { s with tokens := tokens }

/-- `purge` of the sessions, which `sessionCreate` begins with. -/
def purgeSessions (now : ℕ) (s : Registry) : Registry :=
  { s with sessions := s.sessions.filter fun row => !decide (row.expiresAt ≤ now) }

/-- The end of `sessionCreate`, when its hash has been computed. -/
def storeSession (now : ℕ) (value id userId : Text) (userAgent : Option Text) (s : Registry) :
    Except Thrown Registry :=
  let row : SessionRow := ⟨server.sha256Hex value, id, userId, now, now + sessionTtlMs,
    userAgent.map (List.take 200)⟩
  match s.sessions.insert? row with
  | none => .error (.error "UNIQUE constraint failed: sessions.id_hash")
  | some sessions => .ok { s with sessions := sessions }

/-! ### The handler -/

inductive Method where
  | get | post | other
  deriving DecidableEq

/-- The fields of the form, as `readForm` returns them. -/
structure SetupForm where
  adminToken : Option Text
  email : Option Text
  password : Option Text
  confirm : Option Text
  deriving DecidableEq

/-- A request to `/setup`; `sameOrigin` is the outcome of `assertSameOrigin` on its headers. -/
structure SetupRequest where
  method : Method
  sameOrigin : Except Thrown Unit
  form : SetupForm
  userAgent : Option Text

inductive Response where
  | page (error : Option Text)
  | redirect (location : Text) (session : Option Text)
  | thrown (e : Thrown)
  deriving DecidableEq

/-- What a submission has done to the registry. -/
inductive Effect where
  | createdAccount (userId : Text)
  | setPassword (userId : Text)
  | startedSession (userId : Text)
  deriving DecidableEq

/-- The answer to a request, and what it has done on the way. -/
structure Answer where
  response : Response
  did : List Effect

/-- `passwordProblem` -/
def passwordProblem (form : SetupForm) : Option Text :=
  match form.password with
  | none => some "Passwords do not match."
  | some password =>
    if password = [] ∨ form.confirm ≠ some password then some "Passwords do not match."
    else match validatePassword password with
      | .error e => some e.message
      | .ok _ => none

/-- The email of a form. -/
def formEmail (form : SetupForm) : Text := normalizeEmail server.platform (form.email.getD [])

/-- Why the form is shown again. -/
def formProblem (form : SetupForm) : Option Text :=
  if form.adminToken.getD [] ≠ server.adminToken then some "Admin token does not match."
  else if '@' ∉ formEmail server form then some "A valid email is required."
  else match passwordProblem form with
    | some problem => some problem
    | none => if form.password.getD [] = [] then some "Passwords do not match." else none

/-- Where a request stands. -/
inductive Frame where
  | start (r : SetupRequest)
  | readingForm (r : SetupRequest)
  | recounting (r : SetupRequest)
  | creating (r : SetupRequest)
  | issuingToken (r : SetupRequest) (user : UserRecord) (did : List Effect)
  | settingPassword (r : SetupRequest) (userId : Text) (did : List Effect)
  | hashing (r : SetupRequest) (userId password : Text) (did : List Effect)
  | auditing (r : SetupRequest) (userId : Text) (did : List Effect)
  | initialising (r : SetupRequest) (userId : Text) (did : List Effect)
  | startingSession (r : SetupRequest) (userId : Text) (did : List Effect)
  | storingSession (r : SetupRequest) (userId : Text) (did : List Effect)
  | auditingSignin (r : SetupRequest) (userId session : Text) (did : List Effect)

/-- What a request has done so far. -/
def Frame.did : Frame → List Effect
  | .start _ | .readingForm _ | .recounting _ | .creating _ => []
  | .issuingToken _ _ did | .settingPassword _ _ did | .hashing _ _ _ did | .auditing _ _ did
  | .initialising _ _ did | .startingSession _ _ did | .storingSession _ _ did
  | .auditingSignin _ _ _ did => did

/-- What the outside supplies to one piece: the clock, the ids and tokens that are drawn, and the
    salt. -/
structure Input where
  now : ℕ
  id : Text
  token : Text
  salt : List UInt8

/-- `redirect('/signin')` -/
def toSignin : Answer := ⟨.redirect "/signin" none, []⟩

/-- Runs a request to its next `await` or to its answer. -/
def handleSetup (s : Registry) : Frame → Input → Registry × (Frame ⊕ Answer)
  | .start r, _ =>
    if 0 < userCount s then (s, .inr toSignin)
    else match r.method with
      | .get => (s, .inr ⟨.page none, []⟩)
      | .other =>
        (s, .inr ⟨.thrown (.kody "method_not_allowed" "GET or POST only." 405), []⟩)
      | .post =>
        match r.sameOrigin with
        | .error e => (s, .inr ⟨.thrown e, []⟩)
        | .ok () => (s, .inl (.readingForm r))
  | .readingForm r, _ =>
    match formProblem server r.form with
    | some problem => (s, .inr ⟨.page (some problem), []⟩)
    | none => (s, .inl (.recounting r))
  | .recounting r, _ =>
    if 0 < userCount s then (s, .inr toSignin) else (s, .inl (.creating r))
  | .creating r, i =>
    match createUser server i.now i.id (formEmail server r.form) s with
    | (.error e, s) => (s, .inr ⟨.thrown e, []⟩)
    | (.ok (user, created), s) =>
      (s, .inl (.issuingToken r user (if created then [.createdAccount user.id] else [])))
  | .issuingToken r user did, i =>
    match storeToken server i.now i.token user.id "first account (setup)" s with
    | .error e => (s, .inr ⟨.thrown e, did⟩)
    | .ok s => (s, .inl (.settingPassword r user.id did))
  | .settingPassword r userId did, _ =>
    match validatePassword (r.form.password.getD []) with
    | .error e => (s, .inr ⟨.thrown e, did⟩)
    | .ok password => (s, .inl (.hashing r userId password did))
  | .hashing r userId password did, i =>
    let hash := hashPassword server.platform password i.salt
    ({ s with accounts := s.accounts.setCredential i.now userId hash },
      .inl (.auditing r userId (did ++ [.setPassword userId])))
  | .auditing r userId did, _ => (s, .inl (.initialising r userId did))
  | .initialising r userId did, _ => (s, .inl (.startingSession r userId did))
  | .startingSession r userId did, i =>
    (purgeSessions i.now s, .inl (.storingSession r userId did))
  | .storingSession r userId did, i =>
    match storeSession server i.now i.token i.id userId r.userAgent s with
    | .error e => (s, .inr ⟨.thrown e, did⟩)
    | .ok s => (s, .inl (.auditingSignin r userId i.token (did ++ [.startedSession userId])))
  | .auditingSignin _ _ session did, _ =>
    (s, .inr ⟨.redirect "/account?flash=welcome" (some session), did⟩)

/-- `/setup` as a system of concurrent requests. -/
abbrev setups : Coop where
  Shared := Registry
  Call := SetupRequest
  Frame := Frame
  Input := Input
  Ret := Answer
  start := Frame.start
  resume := fun s f i => some (handleSetup server s f i)

def emptyRegistry : Registry :=
  ⟨emptyAccounts, ⟨[], List.nodup_nil⟩, ⟨[], List.nodup_nil⟩⟩

/-- A fresh deployment. -/
def freshSetups : Coop.Config (setups server) := @Coop.idle (setups server) emptyRegistry

/-! ### What should hold -/

/-- A submission that setup takes when it is the first one. -/
def Submits (r : SetupRequest) : Prop :=
  r.method = .post ∧ r.sameOrigin = .ok () ∧ formProblem server r.form = none ∧
    AccountStore.isEmail (normalizeEmail server.platform (formEmail server r.form)) = true

/-- Everything that setting up an account does, in its order. -/
def wholeSetup (userId : Text) : List Effect :=
  [.createdAccount userId, .setPassword userId, .startedSession userId]

/-- **One account.**  At most one submission, in flight or answered, has done anything to the
    registry, and that one does it all for the account that it creates; every other submission that
    was answered is sent to sign-in. -/
structure SetupOnce (g : Coop.Config (setups server)) : Prop where
  account : userCount g.shared ≤ 1
  answered : (g.log.filter fun entry => decide (entry.2.did ≠ [])).length ≤ 1
  apart : ∀ entry ∈ g.log, entry.2.did ≠ [] → ∀ t r f, g.pool t = some (r, f) → f.did = []
  flight : ∀ t u r r' f f', g.pool t = some (r, f) → g.pool u = some (r', f') → f.did ≠ [] →
    f'.did ≠ [] → t = u
  whole : ∀ entry ∈ g.log, ∃ userId, entry.2.did <+: wholeSetup userId
  others : ∀ entry ∈ g.log, entry.2.did = [] → Submits server entry.1 →
    entry.2.response = .redirect "/signin" none

/-- The condition on a step: an account is created only while there is none.  It fails where another
    submission has created its account since this one counted the users. -/
def Alone (g : Coop.Config (setups server)) : Coop.Event (setups server) → Prop
  | .call _ _ => True
  | .resume t _ => ∀ r r', g.pool t = some (r, .creating r') → userCount g.shared = 0

/-! ### The invariant -/

variable {server}

/-- How far a request in flight has come. -/
def Stage (server : Server) (r : SetupRequest) : Frame → Prop
  | .start r' => r' = r
  | .readingForm r' => r' = r ∧ r.method = .post ∧ r.sameOrigin = .ok ()
  | .recounting r' => r' = r ∧ formProblem server r.form = none
  | .creating r' => r' = r ∧ formProblem server r.form = none
  | .issuingToken _ user did => did = [.createdAccount user.id]
  | .settingPassword _ userId did => did = [.createdAccount userId]
  | .hashing _ userId _ did => did = [.createdAccount userId]
  | .auditing _ userId did => did = [.createdAccount userId, .setPassword userId]
  | .initialising _ userId did => did = [.createdAccount userId, .setPassword userId]
  | .startingSession _ userId did => did = [.createdAccount userId, .setPassword userId]
  | .storingSession _ userId did => did = [.createdAccount userId, .setPassword userId]
  | .auditingSignin _ userId _ did => did = wholeSetup userId

/-- Where there is no user nothing has been done, and each request is in order. -/
structure SetupInv (g : Coop.Config (setups server)) : Prop where
  once : SetupOnce server g
  stages : ∀ t r f, g.pool t = some (r, f) → Stage server r f
  fresh : userCount g.shared = 0 →
    (∀ t r f, g.pool t = some (r, f) → f.did = []) ∧ ∀ entry ∈ g.log, entry.2.did = []

/-! ### One piece -/

section
variable {s : Registry} {r : SetupRequest} {f : Frame} {i : Input}

/-- An account that is created is the only one where there was none. -/
theorem createUser_fresh (hnone : userCount s = 0) (now : ℕ) (id email : Text) :
    (∃ e, createUser server now id email s = (.error e, s) ∧
      AccountStore.isEmail (normalizeEmail server.platform email) = false) ∨
    ∃ user s', createUser server now id email s = (.ok (user, true), s') ∧ userCount s' = 1 := by
  have hrows : s.accounts.users.rows = [] := List.length_eq_zero_iff.mp hnone
  have hfind : ∀ k, s.accounts.users.find? k = none := by
    intro k
    unfold Rows.find?
    rw [hrows]
    rfl
  have hfree : ¬ (s.accounts.users.rows.any fun other => decide (other.id = id)) = true := by
    rw [hrows]
    exact Bool.false_ne_true
  unfold createUser
  dsimp only
  cases hemail : AccountStore.isEmail (normalizeEmail server.platform email) with
  | false => exact .inl ⟨_, rfl, rfl⟩
  | true =>
    right
    obtain ⟨users, husers⟩ := Rows.exists_insert?
      (hfind (⟨id, normalizeEmail server.platform email, now⟩ : UserRecord).email)
    have hcount : users.rows.length = 1 := by
      unfold Rows.insert? at husers
      split at husers
      · cases husers
      rw [← Option.some.inj husers]
      show (s.accounts.users.rows ++ [_]).length = 1
      rw [hrows]
      rfl
    rw [if_neg (by decide), hfind]
    dsimp only
    rw [if_neg hfree, husers]
    exact ⟨_, _, rfl, hcount⟩

theorem userCount_storeToken {now : ℕ} {token userId label : Text} {s' : Registry}
    (h : storeToken server now token userId label s = .ok s') : userCount s' = userCount s := by
  unfold storeToken at h
  split at h
  · exact absurd h nofun
  rw [← Except.ok.inj h]
  rfl

theorem userCount_storeSession {now : ℕ} {value id userId : Text} {userAgent : Option Text}
    {s' : Registry} (h : storeSession server now value id userId userAgent s = .ok s') :
    userCount s' = userCount s := by
  unfold storeSession at h
  dsimp only at h
  split at h
  · exact absurd h nofun
  rw [← Except.ok.inj h]
  rfl

/-- **What one piece does**: it goes on, creates the only account, or answers.  A request that has
    done nothing and is answered was not acceptable, or is sent to sign-in. -/
theorem handleSetup_spec {s' : Registry} {out : Frame ⊕ Answer}
    (hpiece : handleSetup server s f i = (s', out)) (hstage : Stage server r f)
    (halone : ∀ r', f = .creating r' → userCount s = 0) :
    (userCount s' = userCount s ∧
      ∃ f', out = .inl f' ∧ Stage server r f' ∧ (f.did = [] → f'.did = [])) ∨
    (userCount s = 0 ∧ userCount s' = 1 ∧ ∃ f', out = .inl f' ∧ Stage server r f') ∨
    (userCount s' = userCount s ∧
      ∃ a, out = .inr a ∧ a.did = f.did ∧ (∃ userId, a.did <+: wholeSetup userId) ∧
        (a.did = [] → Submits server r → a.response = .redirect "/signin" none)) := by
  have hnothing : ∃ userId, ([] : List Effect) <+: wholeSetup userId := ⟨[], List.nil_prefix⟩
  cases f with
  | start r' =>
    obtain rfl : r' = r := hstage
    rw [handleSetup] at hpiece
    split at hpiece
    · obtain ⟨rfl, rfl⟩ := Prod.mk.inj hpiece
      exact .inr (.inr ⟨rfl, _, rfl, rfl, hnothing, fun _ _ => rfl⟩)
    split at hpiece
    · rename_i hmethod
      obtain ⟨rfl, rfl⟩ := Prod.mk.inj hpiece
      refine .inr (.inr ⟨rfl, _, rfl, rfl, hnothing, fun _ hsubmits => ?_⟩)
      exact absurd (hsubmits.1.symm.trans hmethod) nofun
    · rename_i hmethod
      obtain ⟨rfl, rfl⟩ := Prod.mk.inj hpiece
      refine .inr (.inr ⟨rfl, _, rfl, rfl, hnothing, fun _ hsubmits => ?_⟩)
      exact absurd (hsubmits.1.symm.trans hmethod) nofun
    · rename_i hmethod
      split at hpiece
      · rename_i e horigin
        obtain ⟨rfl, rfl⟩ := Prod.mk.inj hpiece
        refine .inr (.inr ⟨rfl, _, rfl, rfl, hnothing, fun _ hsubmits => ?_⟩)
        exact absurd (hsubmits.2.1.symm.trans horigin) nofun
      · rename_i horigin
        obtain ⟨rfl, rfl⟩ := Prod.mk.inj hpiece
        exact .inl ⟨rfl, _, rfl, ⟨rfl, hmethod, horigin⟩, fun _ => rfl⟩
  | readingForm r' =>
    obtain ⟨rfl, hmethod, horigin⟩ := hstage
    rw [handleSetup] at hpiece
    split at hpiece
    · rename_i problem hproblem
      obtain ⟨rfl, rfl⟩ := Prod.mk.inj hpiece
      refine .inr (.inr ⟨rfl, _, rfl, rfl, hnothing, fun _ hsubmits => ?_⟩)
      exact absurd (hsubmits.2.2.1.symm.trans hproblem) nofun
    · rename_i hproblem
      obtain ⟨rfl, rfl⟩ := Prod.mk.inj hpiece
      exact .inl ⟨rfl, _, rfl, ⟨rfl, hproblem⟩, fun _ => rfl⟩
  | recounting r' =>
    obtain ⟨rfl, hproblem⟩ := hstage
    rw [handleSetup] at hpiece
    split at hpiece
    · obtain ⟨rfl, rfl⟩ := Prod.mk.inj hpiece
      exact .inr (.inr ⟨rfl, _, rfl, rfl, hnothing, fun _ _ => rfl⟩)
    · obtain ⟨rfl, rfl⟩ := Prod.mk.inj hpiece
      exact .inl ⟨rfl, _, rfl, ⟨rfl, hproblem⟩, fun _ => rfl⟩
  | creating r' =>
    obtain ⟨rfl, hproblem⟩ := hstage
    have hnone := halone r' rfl
    rw [handleSetup] at hpiece
    rcases @createUser_fresh server s hnone i.now i.id (formEmail server r'.form) with
      ⟨e, hcreate, hemail⟩ | ⟨user, s₁, hcreate, hone⟩
    · rw [hcreate] at hpiece
      obtain ⟨rfl, rfl⟩ := Prod.mk.inj hpiece
      refine .inr (.inr ⟨rfl, _, rfl, rfl, hnothing, fun _ hsubmits => ?_⟩)
      exact absurd (hsubmits.2.2.2.symm.trans hemail) nofun
    · rw [hcreate] at hpiece
      obtain ⟨rfl, rfl⟩ := Prod.mk.inj hpiece
      exact .inr (.inl ⟨hnone, hone, _, rfl, rfl⟩)
  | issuingToken r' user did =>
    obtain rfl : did = _ := hstage
    rw [handleSetup] at hpiece
    split at hpiece
    · obtain ⟨rfl, rfl⟩ := Prod.mk.inj hpiece
      refine .inr (.inr ⟨rfl, _, rfl, rfl, ⟨user.id, ⟨_, rfl⟩⟩, fun hdid => ?_⟩)
      exact absurd hdid nofun
    · rename_i s₁ hstore
      obtain ⟨rfl, rfl⟩ := Prod.mk.inj hpiece
      exact .inl ⟨userCount_storeToken hstore, _, rfl, rfl, fun hdid => absurd hdid nofun⟩
  | settingPassword r' userId did =>
    obtain rfl : did = _ := hstage
    rw [handleSetup] at hpiece
    split at hpiece
    · obtain ⟨rfl, rfl⟩ := Prod.mk.inj hpiece
      refine .inr (.inr ⟨rfl, _, rfl, rfl, ⟨userId, ⟨_, rfl⟩⟩, fun hdid => ?_⟩)
      exact absurd hdid nofun
    · obtain ⟨rfl, rfl⟩ := Prod.mk.inj hpiece
      exact .inl ⟨rfl, _, rfl, rfl, fun hdid => absurd hdid nofun⟩
  | hashing r' userId password did =>
    obtain rfl : did = _ := hstage
    obtain ⟨rfl, rfl⟩ := Prod.mk.inj hpiece
    exact .inl ⟨rfl, _, rfl, rfl, fun hdid => absurd hdid nofun⟩
  | auditing r' userId did =>
    obtain rfl : did = _ := hstage
    obtain ⟨rfl, rfl⟩ := Prod.mk.inj hpiece
    exact .inl ⟨rfl, _, rfl, rfl, fun hdid => absurd hdid nofun⟩
  | initialising r' userId did =>
    obtain rfl : did = _ := hstage
    obtain ⟨rfl, rfl⟩ := Prod.mk.inj hpiece
    exact .inl ⟨rfl, _, rfl, rfl, fun hdid => absurd hdid nofun⟩
  | startingSession r' userId did =>
    obtain rfl : did = _ := hstage
    obtain ⟨rfl, rfl⟩ := Prod.mk.inj hpiece
    exact .inl ⟨rfl, _, rfl, rfl, fun hdid => absurd hdid nofun⟩
  | storingSession r' userId did =>
    obtain rfl : did = _ := hstage
    rw [handleSetup] at hpiece
    split at hpiece
    · obtain ⟨rfl, rfl⟩ := Prod.mk.inj hpiece
      refine .inr (.inr ⟨rfl, _, rfl, rfl, ⟨userId, ⟨_, rfl⟩⟩, fun hdid => ?_⟩)
      exact absurd hdid nofun
    · rename_i s₁ hstore
      obtain ⟨rfl, rfl⟩ := Prod.mk.inj hpiece
      exact .inl ⟨userCount_storeSession hstore, _, rfl, rfl, fun hdid => absurd hdid nofun⟩
  | auditingSignin r' userId session did =>
    obtain rfl : did = _ := hstage
    obtain ⟨rfl, rfl⟩ := Prod.mk.inj hpiece
    refine .inr (.inr ⟨rfl, _, rfl, rfl, ⟨userId, List.prefix_rfl⟩, fun hdid => ?_⟩)
    exact absurd hdid nofun

end

/-! ### The invariant along a run -/

section
variable {g g' : Coop.Config (setups server)} {t : ℕ} {r : SetupRequest} {f : Frame} {i : Input}
  {out : Frame ⊕ Answer}

/-- A request that arrives has done nothing. -/
theorem SetupInv.call (h : SetupInv g) (t : ℕ) (r : SetupRequest) : SetupInv
    { g with pool := Function.update g.pool t (some (r, Frame.start r)) } := by
  -- a request in flight is an old one, or has done nothing
  have hpool : ∀ u r' f, Function.update g.pool t (some (r, Frame.start r)) u = some (r', f) →
      (r' = r ∧ f = .start r) ∨ g.pool u = some (r', f) := by
    intro u r' f hu
    rcases Coop.pool_update_cases hu with ⟨-, heq⟩ | ⟨-, hold⟩
    · obtain ⟨rfl, rfl⟩ := Prod.mk.inj (Option.some.inj heq)
      exact .inl ⟨rfl, rfl⟩
    · exact .inr hold
  refine ⟨⟨h.once.account, h.once.answered, ?_, ?_, h.once.whole, h.once.others⟩, ?_, ?_⟩
  · intro entry hentry hdid u r' f hu
    rcases hpool u r' f hu with ⟨-, rfl⟩ | hold
    · rfl
    · exact h.once.apart entry hentry hdid u r' f hold
  · intro u v r₁ r₂ f₁ f₂ hu hv hdid₁ hdid₂
    rcases hpool u r₁ f₁ hu with ⟨-, rfl⟩ | holdu
    · exact absurd rfl hdid₁
    rcases hpool v r₂ f₂ hv with ⟨-, rfl⟩ | holdv
    · exact absurd rfl hdid₂
    exact h.once.flight u v r₁ r₂ f₁ f₂ holdu holdv hdid₁ hdid₂
  · intro u r' f hu
    rcases hpool u r' f hu with ⟨rfl, rfl⟩ | hold
    · rfl
    · exact h.stages u r' f hold
  · intro hnone
    refine ⟨fun u r' f hu => ?_, (h.fresh hnone).2⟩
    rcases hpool u r' f hu with ⟨-, rfl⟩ | hold
    · rfl
    · exact (h.fresh hnone).1 u r' f hold

/-- A request goes on, and no account is created. -/
theorem SetupInv.goesOn (h : SetupInv g) (hran : Coop.Ran g g' t r f i out) {f' : Frame}
    (hout : out = .inl f') (hcount : userCount g'.shared = userCount g.shared)
    (hstage : Stage server r f') (hdid : f.did = [] → f'.did = []) : SetupInv g' := by
  have hlog : g'.log = g.log := by
    rcases hran.own with ⟨f₁, -, -, hlog⟩ | ⟨a, heq, -⟩
    · exact hlog
    · rw [hout] at heq
      exact absurd heq nofun
  -- who has done something after the piece had done something before it
  have hpool : ∀ u r' f₁, g'.pool u = some (r', f₁) → f₁.did ≠ [] →
      ∃ f₀, g.pool u = some (r', f₀) ∧ f₀.did ≠ [] := by
    intro u r' f₁ hu hne
    rcases hran.pool u r' f₁ hu with ⟨-, hold⟩ | ⟨rfl, rfl, heq⟩
    · exact ⟨f₁, hold, hne⟩
    · obtain rfl := Sum.inl.inj (heq.symm.trans hout)
      exact ⟨f, hran.before, fun hnil => hne (hdid hnil)⟩
  refine ⟨⟨hcount ▸ h.once.account, hlog ▸ h.once.answered, ?_, ?_, hlog ▸ h.once.whole,
    hlog ▸ h.once.others⟩, ?_, ?_⟩
  · intro entry hentry hne u r' f₁ hu
    by_contra hacted
    obtain ⟨f₀, hold, hacted₀⟩ := hpool u r' f₁ hu hacted
    exact hacted₀ (h.once.apart entry (hlog ▸ hentry) hne u r' f₀ hold)
  · intro u v r₁ r₂ f₁ f₂ hu hv hne₁ hne₂
    obtain ⟨f₁', hold₁, hacted₁⟩ := hpool u r₁ f₁ hu hne₁
    obtain ⟨f₂', hold₂, hacted₂⟩ := hpool v r₂ f₂ hv hne₂
    exact h.once.flight u v r₁ r₂ f₁' f₂' hold₁ hold₂ hacted₁ hacted₂
  · intro u r' f₁ hu
    rcases hran.pool u r' f₁ hu with ⟨-, hold⟩ | ⟨rfl, rfl, heq⟩
    · exact h.stages u r' f₁ hold
    · obtain rfl := Sum.inl.inj (heq.symm.trans hout)
      exact hstage
  · intro hnone
    have hold := h.fresh (hcount ▸ hnone)
    refine ⟨fun u r' f₁ hu => ?_, hlog ▸ hold.2⟩
    by_contra hacted
    obtain ⟨f₀, hpool₀, hacted₀⟩ := hpool u r' f₁ hu hacted
    exact hacted₀ (hold.1 u r' f₀ hpool₀)

/-- A request creates the first account: nobody else has done anything. -/
theorem SetupInv.creates (h : SetupInv g) (hran : Coop.Ran g g' t r f i out) {f' : Frame}
    (hout : out = .inl f') (hnone : userCount g.shared = 0) (hone : userCount g'.shared = 1)
    (hstage : Stage server r f') : SetupInv g' := by
  have hlog : g'.log = g.log := by
    rcases hran.own with ⟨f₁, -, -, hlog⟩ | ⟨a, heq, -⟩
    · exact hlog
    · rw [hout] at heq
      exact absurd heq nofun
  obtain ⟨hidle, hquiet⟩ := h.fresh hnone
  have hself : ∀ u r' f₁, g'.pool u = some (r', f₁) → f₁.did ≠ [] → u = t := by
    intro u r' f₁ hu hne
    rcases hran.pool u r' f₁ hu with ⟨-, hold⟩ | ⟨rfl, -⟩
    · exact absurd (hidle u r' f₁ hold) hne
    · rfl
  refine ⟨⟨hone.le, hlog ▸ h.once.answered, ?_, ?_, hlog ▸ h.once.whole, hlog ▸ h.once.others⟩,
    ?_, ?_⟩
  · intro entry hentry hne
    exact absurd (hquiet entry (hlog ▸ hentry)) hne
  · intro u v r₁ r₂ f₁ f₂ hu hv hne₁ hne₂
    exact (hself u r₁ f₁ hu hne₁).trans (hself v r₂ f₂ hv hne₂).symm
  · intro u r' f₁ hu
    rcases hran.pool u r' f₁ hu with ⟨-, hold⟩ | ⟨rfl, rfl, heq⟩
    · exact h.stages u r' f₁ hold
    · obtain rfl := Sum.inl.inj (heq.symm.trans hout)
      exact hstage
  · intro hzero
    omega

/-- A request is answered. -/
theorem SetupInv.answers (h : SetupInv g) (hran : Coop.Ran g g' t r f i out) {a : Answer}
    (hout : out = .inr a) (hcount : userCount g'.shared = userCount g.shared)
    (hdid : a.did = f.did) (hwhole : ∃ userId, a.did <+: wholeSetup userId)
    (hother : a.did = [] → Submits server r → a.response = .redirect "/signin" none) :
    SetupInv g' := by
  have hown : g'.pool t = none ∧ g'.log = (r, a) :: g.log := by
    rcases hran.own with ⟨f₁, heq, -⟩ | ⟨a', heq, hpool, hlog⟩
    · rw [hout] at heq
      exact absurd heq nofun
    · obtain rfl := Sum.inr.inj (heq.symm.trans hout)
      exact ⟨hpool, hlog⟩
  obtain ⟨hpoolt, hlog⟩ := hown
  have hpool : ∀ u r' f₁, g'.pool u = some (r', f₁) → u ≠ t ∧ g.pool u = some (r', f₁) := by
    intro u r' f₁ hu
    rcases hran.pool u r' f₁ hu with hold | ⟨rfl, -, heq⟩
    · exact hold
    · rw [hpoolt] at hu
      exact absurd hu nofun
  refine ⟨⟨hcount ▸ h.once.account, ?_, ?_, ?_, ?_, ?_⟩, ?_, ?_⟩
  · rw [hlog, List.filter_cons]
    split
    · -- this one has done something, so no answered one has
      rename_i hacted
      have hnobody : g.log.filter (fun entry => decide (entry.2.did ≠ [])) = [] := by
        refine List.filter_eq_nil_iff.mpr fun entry hentry hne => ?_
        rw [decide_eq_true_eq] at hne hacted
        have hidle := h.once.apart entry hentry hne t r f hran.before
        exact hacted (hdid.trans hidle)
      rw [hnobody]
      exact le_rfl
    · exact h.once.answered
  · intro entry hentry hne u r' f₁ hu
    obtain ⟨hut, hold⟩ := hpool u r' f₁ hu
    rw [hlog] at hentry
    rcases List.mem_cons.mp hentry with rfl | hmem
    · by_contra hacted
      exact hut (h.once.flight u t r' r f₁ f hold hran.before hacted (hdid ▸ hne))
    · exact h.once.apart entry hmem hne u r' f₁ hold
  · intro u v r₁ r₂ f₁ f₂ hu hv
    exact h.once.flight u v r₁ r₂ f₁ f₂ (hpool u r₁ f₁ hu).2 (hpool v r₂ f₂ hv).2
  · intro entry hentry
    rw [hlog] at hentry
    rcases List.mem_cons.mp hentry with rfl | hmem
    · exact hwhole
    · exact h.once.whole entry hmem
  · intro entry hentry
    rw [hlog] at hentry
    rcases List.mem_cons.mp hentry with rfl | hmem
    · exact hother
    · exact h.once.others entry hmem
  · intro u r' f₁ hu
    exact h.stages u r' f₁ (hpool u r' f₁ hu).2
  · intro hnone
    obtain ⟨hidle, hquiet⟩ := h.fresh (hcount ▸ hnone)
    refine ⟨fun u r' f₁ hu => hidle u r' f₁ (hpool u r' f₁ hu).2, fun entry hentry => ?_⟩
    rw [hlog] at hentry
    rcases List.mem_cons.mp hentry with rfl | hmem
    · exact hdid.trans (hidle t r f hran.before)
    · exact hquiet entry hmem

/-- **One step keeps the invariant** where an account is created only while there is none. -/
theorem SetupInv.step (h : SetupInv g) {e : Coop.Event (setups server)} (halone : Alone server g e)
    (hstep : Coop.step g e = some g') : SetupInv g' := by
  rcases Coop.step_ran hstep with ⟨t, r, rfl, -, rfl⟩ | ⟨t, i, r, f, out, rfl, hran⟩
  · exact h.call t r
  · have hpiece : handleSetup server g.shared f i = (g'.shared, out) := Option.some.inj hran.runs
    have hcreating : ∀ r', f = .creating r' → userCount g.shared = 0 := by
      rintro r' rfl
      exact halone r r' hran.before
    rcases handleSetup_spec hpiece (h.stages t r f hran.before) hcreating with
      ⟨hcount, f', hout, hstage, hdid⟩ | ⟨hnone, hone, f', hout, hstage⟩ |
      ⟨hcount, a, hout, hdid, hwhole, hother⟩
    · exact h.goesOn hran hout hcount hstage hdid
    · exact h.creates hran hout hnone hone hstage
    · exact h.answers hran hout hcount hdid hwhole hother

end

theorem SetupInv.fresh_deployment (server : Server) : SetupInv (freshSetups server) := by
  refine ⟨⟨Nat.zero_le _, Nat.zero_le _, ?_, ?_, ?_, ?_⟩, ?_, fun _ => ⟨?_, ?_⟩⟩
  · intro entry hentry
    cases hentry
  · intro t u r r' f f' hpool
    cases hpool
  · intro entry hentry
    cases hentry
  · intro entry hentry
    cases hentry
  · intro t r f hpool
    cases hpool
  · intro t r f hpool
    cases hpool
  · intro entry hentry
    cases hentry

/-- **First-run setup creates one account** in every run, of any number of submissions, in which an
    account is created only while there is none. -/
theorem setup_once (server : Server) {g : Coop.Config (setups server)}
    (h : Reaches Coop.step (Alone server) (freshSetups server) g) : SetupOnce server g :=
  (h.invariant SetupInv (fun _ _ _ hg halone hstep => hg.step halone hstep)
    (.fresh_deployment server)).once

/-! ### Two runs -/

/-- A server whose tools keep every text as it is. -/
def clearServer : Server where
  platform := ⟨id, fun password _ _ => password.map fun c => UInt8.ofNat c.toNat⟩
  sha256Hex := id
  adminToken := "letmein"

/-- A submission of the setup form. -/
def submission (email password : Text) : SetupRequest where
  method := .post
  sameOrigin := .ok ()
  form := ⟨some "letmein", some email, some password, some password⟩
  userAgent := none

/-- What the outside draws for the request on a thread. -/
def drawn (t : ℕ) : Input := ⟨t, natText t, natText t, [7]⟩

/-- Some pieces of one request after each other. -/
def pieces (t n : ℕ) : List (Coop.Event (setups clearServer)) :=
  List.replicate n (.resume t (drawn t))

def arrivals : List (Coop.Event (setups clearServer)) :=
  [.call 0 (submission "ann@example.com" "correct horse"),
    .call 1 (submission "bob@example.com" "battery staple")]

/-- The condition on a step, computed. -/
def alone (g : Coop.Config (setups clearServer)) : Coop.Event (setups clearServer) → Bool
  | .call _ _ => true
  | .resume t _ =>
    match g.pool t with
    | some (_, .creating _) => decide (userCount g.shared = 0)
    | _ => true

theorem alone_iff (g : Coop.Config (setups clearServer)) (e : Coop.Event (setups clearServer))
    (h : alone g e = true) : Alone clearServer g e := by
  cases e with
  | call t r => trivial
  | resume t i =>
    intro r r' hpool
    simp only [alone, hpool] at h
    exact of_decide_eq_true h

/-- The second submission is counted out once the first one has made its account. -/
theorem setup_once_arrivals : ∃ g,
    execGuarded Coop.step alone (freshSetups clearServer)
      (arrivals ++ pieces 0 4 ++ pieces 1 1 ++ pieces 0 8) = some g ∧
      g.log.map (fun entry => entry.2.response) =
        [.redirect "/account?flash=welcome" (some "0"), .redirect "/signin" none] ∧
      SetupOnce clearServer g := by
  have hrun : (execGuarded Coop.step alone (freshSetups clearServer)
      (arrivals ++ pieces 0 4 ++ pieces 1 1 ++ pieces 0 8)).map
        (fun g => g.log.map fun entry => entry.2.response) =
      some [.redirect "/account?flash=welcome" (some "0"), .redirect "/signin" none] := by
    decide +kernel
  obtain ⟨g, hg, hseen⟩ := Option.map_eq_some_iff.mp hrun
  exact ⟨g, hg, hseen, setup_once clearServer (reaches_of_execGuarded alone_iff hg)⟩

/-- **Race.**  Both submissions count no user the second time, and then both create an account, set
    its password and start a session. -/
theorem setupRace : ∃ g,
    exec Coop.step (freshSetups clearServer)
      (arrivals ++ pieces 0 3 ++ pieces 1 3 ++ pieces 0 9 ++ pieces 1 9) = some g ∧
      Reaches Coop.step (fun _ _ => True) (freshSetups clearServer) g ∧
      g.log.map (fun entry => entry.2.did) = [wholeSetup "1", wholeSetup "0"] ∧
      ¬ SetupOnce clearServer g := by
  have hrun : (exec Coop.step (freshSetups clearServer)
      (arrivals ++ pieces 0 3 ++ pieces 1 3 ++ pieces 0 9 ++ pieces 1 9)).map
        (fun g => (g.log.map fun entry => entry.2.did, userCount g.shared)) =
      some ([wholeSetup "1", wholeSetup "0"], 2) := by
    decide +kernel
  obtain ⟨g, hg, hseen⟩ := Option.map_eq_some_iff.mp hrun
  obtain ⟨hdid, hcount⟩ := Prod.mk.inj hseen
  refine ⟨g, hg, reaches_of_exec hg, hdid, fun honce => ?_⟩
  have hone := honce.account
  omega

end KodyCelld.Auth.Setup
