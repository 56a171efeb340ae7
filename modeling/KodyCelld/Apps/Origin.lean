import KodyCelld.Apps.AppUrl
import KodyCelld.Apps.Forward
import KodyCelld.Apps.Handoff
import KodyCelld.Auth.Setup
import KodyCelld.Lib.UrlPaths

namespace KodyCelld.Apps

open KodyCelld.Lib KodyCelld.Auth
open KodyCelld.Auth.Setup (SessionRow)

/-!
# The app origin (`apps/origin.ts`)

A request is served only with the session cookie of the user of its URL; a handoff is swapped for that
cookie and removed from the URL.

* `handleAppOriginRequest` — the code, with the registry's `appHandoffBurn` and `sessionAlive`;
* `originStep` — sequences of requests, and everything else that signs or changes accounts;
* `OwnerServed` — what should hold of a request that is passed on to an app;
* `only_the_owner` — it does, in every state of every run in which HMAC is not forged.

A request is one step.  It reads the clock of its handler once and the clock of the registry where a
handoff is burned and where a session is looked up.  `new URL(text)` is an origin, a path and a query.
-/

/-! ### The registry -/

/-- True while the public session id exists for this user and has not expired. -/
def sessionAlive (now : ℕ) (userId sessionId : Text) (sessions : Rows SessionRow.idHash) : Bool :=
  match sessions.rows.find? fun row => decide (row.id = sessionId ∧ row.userId = userId) with
  | none => false
  | some row => decide (now < row.expiresAt)

def getUser (userId : Text) (accounts : AccountStore) : Option UserRecord :=
  accounts.users.rows.find? fun user => decide (user.id = userId)

/-- `consumeHandoff`: the checks, and then the burn. -/
def consumeHandoff (p : Platform) (now burnedAt : ℕ) (expected : Expected) (token : Text)
    (accounts : AccountStore) : Except HandoffReason HandoffClaims × AccountStore :=
  match checkHandoff p now expected token with
  | .error reason => (.error reason, accounts)
  | .ok c =>
    match accounts.appHandoffBurn burnedAt c.jti c.exp with
    | (true, accounts) => (.ok c, accounts)
    | (false, accounts) => (.error .replay, accounts)

/-! ### The handler -/

/-- The master key, the configuration, and the reader of cookies: its arguments are the `Cookie`
    header and a name. -/
structure OriginDeps where
  platform : Platform
  config : AppOriginConfig
  publicUrl : Text
  readCookie : Option Text → Text → Option Text

structure OriginState where
  apps : AppsState
  sessions : Rows SessionRow.idHash

/-- The readings of clocks, and a state that was drawn. -/
structure OriginInput where
  now : ℕ
  burnedAt : ℕ
  aliveAt : ℕ
  newState : Text
  deriving DecidableEq, Repr

/-- A `Set-Cookie` header of the app origin. -/
structure OutCookie where
  name : Text
  value : Text
  maxAgeSeconds : ℕ
  path : Text
  secure : Bool
  deriving DecidableEq, Repr

inductive OriginResponse where
  | appNotFound
  | toKody (location : Text)
  | plain (status : ℕ) (message : Text)
  | exchanged (location : TargetUrl) (cookies : List OutCookie)
  | openFromKody (packageName : Text)
  | roundTrip (location : Text) (cookies : List OutCookie)
  | serve (target : AppTarget) (user : UserRecord)
  deriving DecidableEq, Repr

def appStateMaxAgeSeconds : ℕ := 300

/-- `encodeURIComponent` -/
def encodeURIComponent (text : Text) : Text :=
  percentEncode (fun c => isLetter c || isDigit c || decide (c ∈ ("-_.!~*'()" : Text))) text

def isSafeMethod (r : WebRequest) : Bool := decide (r.method = "GET" ∨ r.method = "HEAD")

/-- Whether a header says that another origin sent the request. -/
def isCrossOrigin (config : AppOriginConfig) (r : WebRequest) : Bool :=
  ((r.headers.get "origin").any fun origin =>
    decide (origin ≠ config.protocol ++ "//" ++ r.url.host)) ||
  (r.headers.get "sec-fetch-site").any fun site => decide (site ≠ ("same-origin" : Text))

/-- `url.searchParams.get(handoffParam)`, empty without one. -/
def handoffToken (url : Url) : Text :=
  (((searchParams url.search).find? fun param => decide (param.1 = handoffParam)).map
    Prod.snd).getD []

section
variable (deps : OriginDeps)

def requestCookie (r : WebRequest) (name : Text) : Option Text :=
  deps.readCookie (r.headers.get "cookie") name

/-- The path that the cookies of a request are for. -/
def cookiePath (target : AppTarget) : Text :=
  match deps.config.mode with
  | .path => "/u/" ++ target.userId ++ "/"
  | .subdomain => "/"

def outCookie (target : AppTarget) (name value : Text) (maxAgeSeconds : ℕ) : OutCookie :=
  ⟨name, value, maxAgeSeconds, cookiePath deps target, decide (deps.config.protocol = "https:")⟩

/-- A request without a session: a failed handoff must not loop back to Kody. -/
def refuseRequest (r : WebRequest) (i : OriginInput) (target : AppTarget) : OriginResponse :=
  if !isSafeMethod r || decide (handoffToken r.url ≠ []) then .openFromKody target.packageName
  else
    .roundTrip (deps.publicUrl ++ "/apps/open?package=" ++ encodeURIComponent target.packageName ++
        "&state=" ++ i.newState)
      [outCookie deps target appStateCookieName i.newState appStateMaxAgeSeconds]

/-- The handler from its session cookie on. -/
def answerSession (s : OriginState) (r : WebRequest) (i : OriginInput) (target : AppTarget) :
    OriginResponse :=
  let raw := (requestCookie deps r appSessionCookieName).filter fun raw => !raw.isEmpty
  match raw.bind (verifyAppSession deps.platform i.now) with
  | none => refuseRequest deps r i target
  | some claims =>
    if claims.uid ≠ target.userId ∨ !sessionAlive i.aliveAt claims.uid claims.sid s.sessions then
      refuseRequest deps r i target
    else
      match getUser claims.uid s.apps.accounts with
      | none => .openFromKody target.packageName
      | some user => .serve target user

/-- The request, as far as a handoff depends on it. -/
def appRequestOf (r : WebRequest) (target : AppTarget) : AppRequest :=
  { uid := target.userId
    pkg := target.packageName
    token := handoffToken r.url
    state := (requestCookie deps r appStateCookieName).getD []
    session := requestCookie deps r appSessionCookieName
    safeMethod := isSafeMethod r }

/-- A handoff that was accepted: a session is signed for it. -/
def startAppSession (s : OriginState) (r : WebRequest) (i : OriginInput) (target : AppTarget)
    (c : HandoffClaims) (accounts : AccountStore) : OriginResponse × OriginState :=
  let members := appSessionMembers c.uid c.sid (i.now + appSessionMaxMs)
  (.exchanged
    ⟨deps.config.protocol ++ "//" ++ r.url.host, r.url.pathname, searchWithoutHandoff r.url.search⟩
    [outCookie deps target appSessionCookieName
        (signAppSession deps.platform c.uid c.sid (i.now + appSessionMaxMs)) (appSessionMaxMs / 1000),
      outCookie deps target appStateCookieName [] 0],
    { s with apps := { s.apps with
        accounts := accounts, clock := i.burnedAt
        signed := message sessionPurpose (payloadOf members) :: s.apps.signed
        exchanges := ⟨appRequestOf deps r target, c, i.now, i.burnedAt⟩ :: s.apps.exchanges } })

def handleAppOriginRequest (s : OriginState) (r : WebRequest) (i : OriginInput) :
    OriginResponse × OriginState :=
  match matchAppRequest deps.config r.url with
  | none | some .notFound => (.appNotFound, s)
  | some .root => (.toKody (deps.publicUrl ++ "/"), s)
  | some (.app target) =>
    if !isSafeMethod r && isCrossOrigin deps.config r then
      (.plain 403 "Cross-origin mutating requests to a package app are not allowed.", s)
    else if handoffToken r.url = [] then (answerSession deps s r i target, s)
    else
      let expected : Expected := ⟨target.userId, target.packageName,
        (requestCookie deps r appStateCookieName).getD []⟩
      match consumeHandoff deps.platform i.now i.burnedAt expected (handoffToken r.url)
          s.apps.accounts with
      | (.ok c, accounts) => startAppSession deps s r i target c accounts
      | (.error _, accounts) =>
        let s := { s with apps := { s.apps with accounts := accounts } }
        (answerSession deps s r i target, s)

end

/-! ### Sequences of requests -/

/-- What happens: a request to the app origin, the mint of a handoff, another signature under the
    master key, or any change of accounts and their sessions. -/
inductive OriginEvent where
  | request (r : WebRequest) (i : OriginInput)
  | openApp (now : ℕ) (uid pkg sid st jti : Text)
  | sign (other : OtherSeal)
  | accounts (accounts : AccountStore) (sessions : Rows SessionRow.idHash)

/-- One step; a reading of the clock is a time value. -/
def originStep (deps : OriginDeps) (s : OriginState) : OriginEvent → Option OriginState
  | .request r i =>
    if i.now ≤ maxTimeValue then some (handleAppOriginRequest deps s r i).2 else none
  | .openApp now uid pkg sid st jti =>
    if now ≤ maxTimeValue then
      let m : HandoffMint := ⟨uid, pkg, sid, st, now + handoffTtlMs, jti⟩
      some { s with apps := { s.apps with
        minted := m :: s.apps.minted, signed := m.message :: s.apps.signed } }
    else none
  | .sign other => some { s with apps := { s.apps with signed := other.message :: s.apps.signed } }
  | .accounts accounts sessions =>
    some { s with apps := { s.apps with accounts := accounts }, sessions := sessions }

def freshOrigin : OriginState := ⟨⟨emptyAccounts, 0, [], [], []⟩, ⟨[], List.nodup_nil⟩⟩

/-- A value that a request presents, for the purpose that it is unsealed for. -/
def Presents (deps : OriginDeps) (r : WebRequest) (purpose value : Text) : Prop :=
  (purpose = handoffPurpose ∧ value = handoffToken r.url) ∨
    (purpose = sessionPurpose ∧ requestCookie deps r appSessionCookieName = some value)

/-- HMAC is not forged: a value whose signature verifies was signed. -/
def OriginUnforged (deps : OriginDeps) (s : OriginState) : OriginEvent → Prop
  | .request r _ => ∀ purpose value payload signature, Presents deps r purpose value →
    value.splitOn '.' = [payload, signature] →
    fromBase64Url signature = some (deps.platform.hmac (message purpose payload)) →
    message purpose payload ∈ s.apps.signed
  | _ => True

/-! ### What should hold -/

/-- The session was signed when a handoff was exchanged that had been sealed for its user. -/
def MintedFor (s : OriginState) (userId : Text) (c : AppSessionClaims) : Prop :=
  ∃ m ∈ s.apps.minted, m.uid = userId ∧ ∃ x ∈ s.apps.exchanges, x.claims = m.claims ∧
    c = ⟨m.uid, m.sid, x.startedAt + appSessionMaxMs⟩

/-- **A request that is passed on** to the app of a user: it carries a session that was minted from a
    handoff for that user and has not expired, the Kody session behind it is alive and the user's, and
    no header says that another origin sent it, unless it is a GET or HEAD.  The app sees no handoff. -/
structure OwnerServed (deps : OriginDeps) (s : OriginState) (r : WebRequest) (i : OriginInput)
    (target : AppTarget) (user : UserRecord) : Prop where
  matched : matchAppRequest deps.config r.url = some (.app target)
  owner : user.id = target.userId
  session : ∃ value claims, requestCookie deps r appSessionCookieName = some value ∧
    verifyAppSession deps.platform i.now value = some claims ∧
    MintedFor s target.userId claims ∧ (i.now : ℚ) < claims.exp ∧
    ∃ row ∈ s.sessions.rows, row.id = claims.sid ∧ row.userId = target.userId ∧
      i.aliveAt < row.expiresAt
  sameOrigin : isSafeMethod r = true ∨
    ((∀ origin, r.headers.get "origin" = some origin → origin = target.origin) ∧
      ∀ site, r.headers.get "sec-fetch-site" = some site → site = "same-origin")
  noHandoff : ∀ context, ∀ param ∈
    searchParams (buildAppRequest r target.origin target.restPath context).target.search,
    param.1 ≠ handoffParam

/-- **What should hold of a response**; the redirect after an exchange has no handoff either. -/
structure OwnerOnly (deps : OriginDeps) (s : OriginState) (r : WebRequest) (i : OriginInput)
    (response : OriginResponse) : Prop where
  served : ∀ target user, response = .serve target user → OwnerServed deps s r i target user
  redirected : ∀ location cookies, response = .exchanged location cookies →
    ∀ param ∈ searchParams location.search, param.1 ≠ handoffParam

/-! ### What the handler does -/

variable {deps : OriginDeps} {s : OriginState} {r : WebRequest} {i : OriginInput}
  {target : AppTarget} {user : UserRecord}

theorem sessionAlive_row {now : ℕ} {userId sessionId : Text} {sessions : Rows SessionRow.idHash}
    (h : sessionAlive now userId sessionId sessions = true) :
    ∃ row ∈ sessions.rows, row.id = sessionId ∧ row.userId = userId ∧ now < row.expiresAt := by
  unfold sessionAlive at h
  split at h
  · cases h
  rename_i row hfind
  have hrow := List.mem_of_find?_eq_some hfind
  have hmatch := List.find?_some hfind
  obtain ⟨hid, huser⟩ := of_decide_eq_true hmatch
  exact ⟨row, hrow, hid, huser, of_decide_eq_true h⟩

theorem getUser_id {userId : Text} {accounts : AccountStore}
    (h : getUser userId accounts = some user) : user.id = userId := by
  unfold getUser at h
  have hmatch := List.find?_some h
  exact of_decide_eq_true hmatch

/-- A refusal passes nothing on and exchanges nothing. -/
theorem refuseRequest_not_served {response : OriginResponse}
    (h : refuseRequest deps r i target = response) :
    (∀ target' user, response ≠ .serve target' user) ∧
      ∀ location cookies, response ≠ .exchanged location cookies := by
  subst h
  unfold refuseRequest
  split
  · exact ⟨nofun, nofun⟩
  · exact ⟨nofun, nofun⟩

/-- **What a session cookie is checked for**, before a request is passed on. -/
theorem answerSession_serve {target' : AppTarget}
    (h : answerSession deps s r i target = .serve target' user) :
    target' = target ∧ user.id = target.userId ∧ ∃ value claims,
      requestCookie deps r appSessionCookieName = some value ∧
      verifyAppSession deps.platform i.now value = some claims ∧ claims.uid = target.userId ∧
      ∃ row ∈ s.sessions.rows, row.id = claims.sid ∧ row.userId = target.userId ∧
        i.aliveAt < row.expiresAt := by
  unfold answerSession at h
  dsimp only at h
  split at h
  · exact absurd h ((refuseRequest_not_served rfl).1 _ _)
  rename_i claims hclaims
  obtain ⟨value, hvalue, hverify⟩ := Option.bind_eq_some_iff.mp hclaims
  obtain ⟨hcookie, -⟩ := Option.filter_eq_some_iff.mp hvalue
  split at h
  · exact absurd h ((refuseRequest_not_served rfl).1 _ _)
  rename_i hpassed
  rw [not_or, not_not, Bool.not_eq_true, Bool.not_eq_false'] at hpassed
  obtain ⟨huid, halive⟩ := hpassed
  rw [huid] at halive
  split at h
  · cases h
  rename_i found hfound
  cases h
  rw [huid] at hfound
  exact ⟨rfl, getUser_id hfound, value, claims, hcookie, hverify, huid,
    sessionAlive_row halive⟩

/-- A session that answers a request is no exchange. -/
theorem answerSession_not_exchanged (location : TargetUrl) (cookies : List OutCookie) :
    answerSession deps s r i target ≠ .exchanged location cookies := by
  unfold answerSession
  dsimp only
  split
  · exact (refuseRequest_not_served rfl).2 _ _
  · split
    · exact (refuseRequest_not_served rfl).2 _ _
    · split
      · exact nofun
      · exact nofun

theorem consumeHandoff_ok {p : Platform} {now burnedAt : ℕ} {expected : Expected} {token : Text}
    {accounts accounts' : AccountStore} {c : HandoffClaims}
    (h : consumeHandoff p now burnedAt expected token accounts = (.ok c, accounts')) :
    checkHandoff p now expected token = .ok c := by
  unfold consumeHandoff at h
  split at h
  · cases h
  rename_i found hcheck
  split at h
  · cases h
    exact hcheck
  · cases h

/-- **The two ways of a request**: a handoff is exchanged, or nothing is signed and the answer is one
    to its session cookie or passes nothing on. -/
theorem handle_cases (deps : OriginDeps) (s : OriginState) (r : WebRequest) (i : OriginInput) :
    (∃ target c accounts, matchAppRequest deps.config r.url = some (.app target) ∧
      checkHandoff deps.platform i.now ⟨target.userId, target.packageName,
        (requestCookie deps r appStateCookieName).getD []⟩ (handoffToken r.url) = .ok c ∧
      handleAppOriginRequest deps s r i = startAppSession deps s r i target c accounts) ∨
    ∃ accounts, (handleAppOriginRequest deps s r i).2 =
        { s with apps := { s.apps with accounts := accounts } } ∧
      (∀ location cookies, (handleAppOriginRequest deps s r i).1 ≠ .exchanged location cookies) ∧
      ∀ target user, (handleAppOriginRequest deps s r i).1 = .serve target user →
        matchAppRequest deps.config r.url = some (.app target) ∧
        (isSafeMethod r = true ∨ isCrossOrigin deps.config r = false) ∧
        answerSession deps { s with apps := { s.apps with accounts := accounts } } r i target =
          .serve target user := by
  unfold handleAppOriginRequest
  split
  · exact .inr ⟨s.apps.accounts, rfl, nofun, nofun⟩
  · exact .inr ⟨s.apps.accounts, rfl, nofun, nofun⟩
  · exact .inr ⟨s.apps.accounts, rfl, nofun, nofun⟩
  · rename_i target hmatch
    have hserved : ∀ accounts, ∀ target' user,
        answerSession deps { s with apps := { s.apps with accounts := accounts } } r i target =
          .serve target' user → target' = target :=
      fun accounts target' user h => (answerSession_serve h).1
    split
    · exact .inr ⟨s.apps.accounts, rfl, nofun, nofun⟩
    · rename_i hsafe
      have hmethod : isSafeMethod r = true ∨ isCrossOrigin deps.config r = false := by
        cases hm : isSafeMethod r with
        | true => exact .inl rfl
        | false =>
          rw [hm] at hsafe
          exact .inr (by simpa using hsafe)
      split
      · refine .inr ⟨s.apps.accounts, rfl, answerSession_not_exchanged, ?_⟩
        intro target' user h
        obtain rfl := hserved _ _ _ h
        exact ⟨hmatch, hmethod, h⟩
      · dsimp only
        split
        · rename_i c accounts hconsume
          exact .inl ⟨target, c, accounts, hmatch, consumeHandoff_ok hconsume, rfl⟩
        · rename_i reason accounts hconsume
          refine .inr ⟨accounts, rfl, answerSession_not_exchanged, ?_⟩
          intro target' user h
          obtain rfl := hserved _ _ _ h
          exact ⟨hmatch, hmethod, h⟩

/-! ### The invariant -/

/-- Whoever signed what was signed is known, and every exchange was of a handoff that was minted. -/
structure OriginOk (s : OriginState) : Prop where
  isSealed : Sealed s.apps
  exchanged : ∀ x ∈ s.apps.exchanges, ∃ m ∈ s.apps.minted, x.claims = m.claims

/-- Accounts and sessions may change as they please. -/
theorem OriginOk.accounts (hs : OriginOk s) (accounts : AccountStore)
    (sessions : Rows SessionRow.idHash) :
    OriginOk { s with apps := { s.apps with accounts := accounts }, sessions := sessions } :=
  ⟨⟨hs.isSealed.bounds, hs.isSealed.started, hs.isSealed.signed⟩, hs.exchanged⟩

/-- A message more. -/
theorem OriginOk.sign (hs : OriginOk s) {text : Text} (h : SignedBy s.apps text) :
    OriginOk { s with apps := { s.apps with signed := text :: s.apps.signed } } := by
  refine ⟨⟨hs.isSealed.bounds, hs.isSealed.started, ?_⟩, hs.exchanged⟩
  intro other hother
  rcases List.mem_cons.mp hother with rfl | hold
  · exact h
  · exact hs.isSealed.signed other hold

/-- A handoff that is minted. -/
theorem OriginOk.mint (hs : OriginOk s) {m : HandoffMint} (hexp : m.exp < 2 ^ 53) :
    OriginOk { s with apps := { s.apps with
      minted := m :: s.apps.minted, signed := m.message :: s.apps.signed } } := by
  refine ⟨⟨?_, hs.isSealed.started, ?_⟩, ?_⟩
  · intro m' hm'
    rcases List.mem_cons.mp hm' with rfl | hold
    · exact hexp
    · exact hs.isSealed.bounds m' hold
  · intro text htext
    rcases List.mem_cons.mp htext with rfl | hold
    · exact .inl ⟨m, List.mem_cons_self, rfl⟩
    · exact (hs.isSealed.signed text hold).grows
        ⟨fun m' hm' => List.mem_cons_of_mem _ hm', fun x hx => hx⟩
  · intro x hx
    obtain ⟨m', hm', hclaims⟩ := hs.exchanged x hx
    exact ⟨m', List.mem_cons_of_mem _ hm', hclaims⟩

/-- **A handoff that is exchanged** was minted, as HMAC is not forged. -/
theorem OriginOk.start (hs : OriginOk s) (hunforged : OriginUnforged deps s (.request r i))
    (hnow : i.now ≤ maxTimeValue) {c : HandoffClaims} {accounts : AccountStore}
    (hcheck : checkHandoff deps.platform i.now ⟨target.userId, target.packageName,
      (requestCookie deps r appStateCookieName).getD []⟩ (handoffToken r.url) = .ok c) :
    OriginOk (startAppSession deps s r i target c accounts).2 := by
  have hminted : ∃ m ∈ s.apps.minted, c = m.claims := by
    obtain ⟨m, hm, hclaims, -⟩ := hs.isSealed.checked (r := appRequestOf deps r target)
      (fun payload signature => hunforged _ _ payload signature (.inl ⟨rfl, rfl⟩)) hcheck
    exact ⟨m, hm, hclaims⟩
  refine ⟨⟨hs.isSealed.bounds, ?_, ?_⟩, ?_⟩
  · intro x hx
    rcases List.mem_cons.mp hx with rfl | hold
    · exact hnow
    · exact hs.isSealed.started x hold
  · intro text htext
    rcases List.mem_cons.mp htext with rfl | hold
    · exact .inr (.inl ⟨_, List.mem_cons_self, rfl⟩)
    · exact (hs.isSealed.signed text hold).grows
        ⟨fun m hm => hm, fun x hx => List.mem_cons_of_mem _ hx⟩
  · intro x hx
    rcases List.mem_cons.mp hx with rfl | hold
    · exact hminted
    · exact hs.exchanged x hold

/-- **Step lemma.** -/
theorem OriginOk.step {s' : OriginState} {e : OriginEvent} (hs : OriginOk s)
    (hunforged : OriginUnforged deps s e) (h : originStep deps s e = some s') : OriginOk s' := by
  cases e with
  | request r i =>
    obtain ⟨hnow, heq⟩ := Option.ite_none_right_eq_some.mp h
    obtain rfl := Option.some.inj heq
    rcases handle_cases deps s r i with ⟨target, c, accounts, -, hcheck, heq⟩ | ⟨accounts, heq, -, -⟩
    · rw [heq]
      exact hs.start hunforged hnow hcheck
    · rw [heq]
      exact hs.accounts accounts s.sessions
  | openApp now uid pkg sid st jti =>
    obtain ⟨hnow, heq⟩ := Option.ite_none_right_eq_some.mp h
    obtain rfl := Option.some.inj heq
    apply hs.mint
    show now + handoffTtlMs < 2 ^ 53
    unfold maxTimeValue at hnow
    unfold handoffTtlMs
    omega
  | sign other =>
    obtain rfl := Option.some.inj h
    exact hs.sign (.inr (.inr ⟨other, rfl⟩))
  | accounts accounts sessions =>
    obtain rfl := Option.some.inj h
    exact hs.accounts accounts sessions

theorem OriginOk.fresh : OriginOk freshOrigin := by
  refine ⟨⟨?_, ?_, ?_⟩, ?_⟩
  all_goals simp [freshOrigin]

/-! ### Who is served -/

/-- Where no header says that another origin sent a request. -/
theorem sameOrigin_of_not_crossOrigin {config : AppOriginConfig}
    (h : isCrossOrigin config r = false) :
    (∀ origin, r.headers.get "origin" = some origin →
      origin = config.protocol ++ "//" ++ r.url.host) ∧
      ∀ site, r.headers.get "sec-fetch-site" = some site → site = "same-origin" := by
  unfold isCrossOrigin at h
  rw [Bool.or_eq_false_iff] at h
  obtain ⟨horigin, hsite⟩ := h
  constructor
  · intro origin hget
    rw [hget, Option.any_some, decide_eq_false_iff_not, not_not] at horigin
    exact horigin
  · intro site hget
    rw [hget, Option.any_some, decide_eq_false_iff_not, not_not] at hsite
    exact hsite

/-- **A session cookie that is accepted** was minted for the user that it names. -/
theorem OriginOk.mintedFor (hs : OriginOk s) (hunforged : OriginUnforged deps s (.request r i))
    {value : Text} {claims : AppSessionClaims}
    (hcookie : requestCookie deps r appSessionCookieName = some value)
    (hverify : verifyAppSession deps.platform i.now value = some claims) :
    (i.now : ℚ) < claims.exp ∧ MintedFor s claims.uid claims := by
  obtain ⟨hlive, x, hx, hclaims⟩ := hs.isSealed.verified
    (fun payload signature => hunforged _ value payload signature (.inr ⟨rfl, hcookie⟩)) hverify
  obtain ⟨m, hm, hof⟩ := hs.exchanged x hx
  have huid : x.claims.uid = m.uid := by rw [hof]; rfl
  have hsid : x.claims.sid = m.sid := by rw [hof]; rfl
  rw [huid, hsid] at hclaims
  exact ⟨hlive, m, hm, by rw [hclaims], x, hx, hof, hclaims⟩

/-- **What the handler answers** in a state that keeps the invariant. -/
theorem OriginOk.ownerOnly (hs : OriginOk s) (hunforged : OriginUnforged deps s (.request r i)) :
    OwnerOnly deps s r i (handleAppOriginRequest deps s r i).1 := by
  rcases handle_cases deps s r i with ⟨target, c, accounts, -, -, heq⟩ |
    ⟨accounts, -, hexchanged, hserved⟩
  · rw [heq]
    refine ⟨nofun, ?_⟩
    intro location cookies hlocation
    cases hlocation
    exact searchWithoutHandoff_clean r.url.search
  · refine ⟨?_, fun location cookies h => absurd h (hexchanged location cookies)⟩
    intro target user hresponse
    obtain ⟨hmatch, hmethod, hanswer⟩ := hserved target user hresponse
    obtain ⟨-, howner, value, claims, hcookie, hverify, huid, hrow⟩ := answerSession_serve hanswer
    obtain ⟨hlive, hminted⟩ := hs.mintedFor hunforged hcookie hverify
    refine ⟨hmatch, howner, ⟨value, claims, hcookie, hverify, huid ▸ hminted, hlive, hrow⟩, ?_, ?_⟩
    · rw [(matchAppRequest_app hmatch).2.1]
      exact hmethod.imp_right sameOrigin_of_not_crossOrigin
    · exact fun _ => searchWithoutHandoff_clean r.url.search

/-- **Only the owner reaches an app.**  In every state of every run in which HMAC is not forged, a
    request that is passed on carries an unexpired session that was minted from a handoff for the user
    of its URL, behind which a Kody session of that user is alive; other origins send it only with a
    safe method; and neither the app nor a redirect gets a handoff. -/
theorem only_the_owner {deps : OriginDeps} {s : OriginState}
    (hrun : Reaches (originStep deps) (OriginUnforged deps) freshOrigin s) {r : WebRequest}
    {i : OriginInput} (hunforged : OriginUnforged deps s (.request r i)) :
    OwnerOnly deps s r i (handleAppOriginRequest deps s r i).1 := by
  have hs : OriginOk s :=
    Reaches.invariant OriginOk (fun _ _ _ hs hunforged hstep => hs.step hunforged hstep) hrun .fresh
  exact hs.ownerOnly hunforged

/-! ### A run -/

/-- `OriginUnforged`, as far as it can be run. -/
def originUnforgedCheck (deps : OriginDeps) (s : OriginState) : OriginEvent → Bool
  | .request r _ =>
    let presented : List (Text × Text) := (handoffPurpose, handoffToken r.url) ::
      ((requestCookie deps r appSessionCookieName).map fun value => (sessionPurpose, value)).toList
    presented.all fun (purpose, value) =>
      match value.splitOn '.' with
      | [payload, signature] =>
        decide (fromBase64Url signature ≠ some (deps.platform.hmac (message purpose payload))) ||
          decide (message purpose payload ∈ s.apps.signed)
      | _ => true
  | _ => true

theorem originUnforged_of_check {deps : OriginDeps} {s : OriginState} {e : OriginEvent}
    (h : originUnforgedCheck deps s e = true) : OriginUnforged deps s e := by
  cases e with
  | request r i =>
    intro purpose value payload signature hpresents hsplit hvalid
    have hmem : (purpose, value) ∈ (handoffPurpose, handoffToken r.url) ::
        ((requestCookie deps r appSessionCookieName).map fun value =>
          (sessionPurpose, value)).toList := by
      rcases hpresents with ⟨rfl, rfl⟩ | ⟨rfl, hcookie⟩
      · exact List.mem_cons_self
      · rw [hcookie]
        exact List.mem_cons_of_mem _ (List.mem_singleton_self _)
    have hchecked := List.all_eq_true.mp h _ hmem
    simp only [hsplit, hvalid, ne_eq, not_true_eq_false, decide_false, Bool.false_or,
      decide_eq_true_eq] at hchecked
    exact hchecked
  | _ => trivial

/-- Apps on one host, over plain HTTP; the reader of cookies decodes nothing. -/
def demoOrigin : OriginDeps where
  platform := sumPlatform
  config := ⟨.path, "http:", "apps.test", []⟩
  publicUrl := "http://kody.test"
  readCookie := fun header name =>
    ((readCookies (header.getD [])).find? fun cookie => decide (cookie.1 = name)).map Prod.snd

/-- A request for the app `notes` of the user `u`. -/
def notesRequest (method search : Text) (headers : Mcp.Headers) : WebRequest where
  method := method
  url := ⟨"http://apps.test/u/u/packages/notes/" ++ search, "http://apps.test", "http:", [], [],
    "apps.test", [], "/u/u/packages/notes/", search, []⟩
  headers := headers
  body := []

def demoUser : UserRecord := ⟨"u", "u@kody.test", 0⟩

/-- The user `u` has a session, a handoff is minted for it, and the browser swaps the handoff. -/
def signInRun : List OriginEvent :=
  [.accounts { emptyAccounts with users := ⟨[demoUser], List.nodup_singleton _⟩ }
      ⟨[⟨"h", "s", "u", 0, 1000000, none⟩], List.nodup_singleton _⟩,
   .openApp 0 "u" "notes" "s" "st" "j",
   .request (notesRequest "GET" ("?__kody_handoff=" ++ mintHandoff sumPlatform demoMint)
      [("cookie", "kody_app_state=st")]) ⟨1, 2, 2, "n"⟩]

/-- Then the app posts to itself. -/
def postRequest : WebRequest :=
  notesRequest "POST" []
    [("cookie", "kody_app_session=" ++ signAppSession sumPlatform "u" "s" (1 + appSessionMaxMs)),
     ("origin", "http://apps.test"), ("sec-fetch-site", "same-origin")]

def notesTarget : AppTarget :=
  ⟨"u", "notes", "http://apps.test", "/u/u/packages/notes", "/"⟩

theorem only_the_owner_post : ∃ s : OriginState,
    s.apps.exchanges.length = 1 ∧
      (handleAppOriginRequest demoOrigin s postRequest ⟨3, 4, 4, "n"⟩).1 =
        .serve notesTarget demoUser ∧
      OwnerServed demoOrigin s postRequest ⟨3, 4, 4, "n"⟩ notesTarget demoUser := by
  have hrun : (execGuarded (originStep demoOrigin) (originUnforgedCheck demoOrigin) freshOrigin
      signInRun).map (fun s => (s.apps.exchanges.length,
        (handleAppOriginRequest demoOrigin s postRequest ⟨3, 4, 4, "n"⟩).1,
        originUnforgedCheck demoOrigin s (.request postRequest ⟨3, 4, 4, "n"⟩))) =
      some (1, .serve notesTarget demoUser, true) := by
    decide +kernel
  obtain ⟨s, hs, hseen⟩ := Option.map_eq_some_iff.mp hrun
  obtain ⟨hexchanges, hseen⟩ := Prod.mk.inj hseen
  obtain ⟨hresponse, hunforged⟩ := Prod.mk.inj hseen
  have hreach : Reaches (originStep demoOrigin) (OriginUnforged demoOrigin) freshOrigin s :=
    reaches_of_execGuarded (fun _ _ => originUnforged_of_check) hs
  have hguard : OriginUnforged demoOrigin s (.request postRequest ⟨3, 4, 4, "n"⟩) :=
    originUnforged_of_check hunforged
  exact ⟨s, hexchanges, hresponse, (only_the_owner hreach hguard).served _ _ hresponse⟩

end KodyCelld.Apps
