import KodyCelld.Errors
import KodyCelld.Lib.Machine
import KodyCelld.Lib.Rows
import KodyCelld.Secrets.HostPolicy

namespace KodyCelld.Integrations

open KodyCelld.Lib KodyCelld.Secrets

/-!
# OAuth integrations (`integrations/store.ts`)

The integrations of one user, their connect links and the refreshes in flight.  Every operation is
cut at its `await`s: a `Frame` is where a call stands, and `piece` runs it to its next `await` or to
its return.  Two awaits with nothing read or written between them are one.

Sealed columns are kept as their plaintexts.  Beside what the source stores, every token carries the
number of the grant it was obtained from (`Held.origin`), and the store counts the grants seen so far,
keeps for each name how many there were when its tokens were last dropped (`ended`), and lists the
states issued and the token requests sent.  Nothing the source computes depends on these.

* `IntegrationStore` — the tables and the map of refreshes in flight;
* `piece` — the next piece of a call;
* `Frame.ends` — where a disconnect, a delete or a change of credentials returns;
* `integrations` — the system of calls.
-/

/-! ### Configurations and rows -/

inductive OAuthFlow where
  | authorizationCode | clientCredentials
  deriving DecidableEq, Repr

inductive TokenAuthStyle where
  | body | basic
  deriving DecidableEq, Repr

inductive IntegrationUsage where
  | any
  | packages (packages : List Text)
  deriving DecidableEq, Repr

structure IntegrationConfig where
  name : Text
  provider : Text
  description : Option Text
  flow : OAuthFlow
  authorizeUrl : Option Text
  tokenUrl : Text
  clientId : Text
  tokenAuthStyle : TokenAuthStyle
  scopes : List Text
  scopeSeparator : Text
  authorizeParams : List (Text × Text)
  allowedHosts : List Text
  usage : IntegrationUsage
  deriving DecidableEq, Repr

inductive IntegrationStatus where
  | pending | connected | authFailed
  deriving DecidableEq, Repr

def IntegrationStatus.text : IntegrationStatus → Text
  | .pending => "pending"
  | .connected => "connected"
  | .authFailed => "auth_failed"

/-- A token, and the number of the grant it was obtained from. -/
structure Held where
  token : Text
  origin : ℕ
  deriving DecidableEq, Repr

/-- A row of `integrations`; its `name` column repeats the name of its config. -/
structure IntegrationRow where
  config : IntegrationConfig
  clientSecret : Option Text
  access : Option Held
  refresh : Option Held
  tokenType : Option Text
  expiresAt : Option ℕ
  grantedScope : Option Text
  status : IntegrationStatus
  connectedAt : Option ℕ
  refreshedAt : Option ℕ
  lastUsedAt : Option ℕ
  authFailedAt : Option ℕ
  authFailedReason : Option Text
  createdAt : ℕ
  updatedAt : ℕ
  deriving DecidableEq, Repr

def IntegrationRow.name (row : IntegrationRow) : Text := row.config.name

/-- What leaves the store about an integration. -/
structure IntegrationRecord where
  config : IntegrationConfig
  hasClientSecret : Bool
  status : IntegrationStatus
  tokenType : Option Text
  expiresAt : Option ℕ
  hasRefreshToken : Bool
  grantedScope : Option Text
  connectedAt : Option ℕ
  refreshedAt : Option ℕ
  lastUsedAt : Option ℕ
  authFailedAt : Option ℕ
  authFailedReason : Option Text
  createdAt : ℕ
  updatedAt : ℕ
  placeholder : Text
  deriving DecidableEq, Repr

def toRecord (row : IntegrationRow) : IntegrationRecord :=
  { config := row.config
    hasClientSecret := row.clientSecret.isSome
    status := row.status
    tokenType := row.tokenType
    expiresAt := row.expiresAt
    hasRefreshToken := row.refresh.isSome
    grantedScope := row.grantedScope
    connectedAt := row.connectedAt
    refreshedAt := row.refreshedAt
    lastUsedAt := row.lastUsedAt
    authFailedAt := row.authFailedAt
    authFailedReason := row.authFailedReason
    createdAt := row.createdAt
    updatedAt := row.updatedAt
    placeholder := "\x7b\x7bintegration-token:" ++ row.config.name ++ "\x7d\x7d" }

/-- A row of `integration_connects`. -/
structure ConnectRow where
  id : Text
  name : Text
  ticketHash : Text
  nonceHash : Option Text
  verifier : Option Text
  redirectUri : Text
  createdAt : ℕ
  expiresAt : ℕ
  startedAt : Option ℕ
  completedAt : Option ℕ
  error : Option Text
  deriving DecidableEq, Repr

structure ConnectRecord where
  id : Text
  name : Text
  redirectUri : Text
  createdAt : ℕ
  expiresAt : ℕ
  startedAt : Option ℕ
  completedAt : Option ℕ
  error : Option Text
  deriving DecidableEq, Repr

def toConnect (row : ConnectRow) : ConnectRecord :=
  ⟨row.id, row.name, row.redirectUri, row.createdAt, row.expiresAt, row.startedAt, row.completedAt,
    row.error⟩

structure ConnectTicket where
  connectId : Text
  ticket : Text
  expiresAt : ℕ
  deriving DecidableEq, Repr

/-- What an authorize URL is built from. -/
structure AuthorizeInput where
  config : IntegrationConfig
  redirectUri : Text
  state : Text
  codeChallenge : Text
  deriving DecidableEq, Repr

/-! ### Tokens (`integrations/oauth.ts`) -/

inductive TokenGrant where
  | authorizationCode (code redirectUri codeVerifier : Text)
  | refreshToken (refreshToken : Text)
  | clientCredentials
  deriving DecidableEq, Repr

/-- A token response after `parseTokenResponse`. -/
structure TokenResponse where
  accessToken : Text
  refreshToken : Option Text
  tokenType : Text
  expiresAt : Option ℕ
  scope : Option Text
  deriving DecidableEq, Repr

/-- What a token request ends with when it fails, with the `error` field of the provider's answer. -/
structure TokenError where
  thrown : Thrown
  providerError : Option Text
  deriving DecidableEq, Repr

inductive TokenResolution where
  | ok (held : Held) (record : IntegrationRecord) (refreshed : Bool)
  | denied (code : Text) (status : ℕ) (message : Text) (record : Option IntegrationRecord)
  deriving DecidableEq, Repr

def connectTicketTtlMs : ℕ := 15 * 60000

def tokenExpirySkewMs : ℕ := 60000

def isTokenExpired (expiresAt : Option ℕ) (now : ℕ) : Bool :=
  match expiresAt with
  | none => false
  | some instant => decide (instant ≤ now + tokenExpirySkewMs)

/-- Ad hoc execute has no package name; a locked integration refuses it. -/
def usagePermits (usage : IntegrationUsage) (packageName : Option Text) : Bool :=
  match usage with
  | .any => true
  | .packages packages => packageName.any fun name => decide (name ∈ packages)

def encodeState (userId connectId nonce : Text) : Text :=
  userId ++ "." ++ connectId ++ "." ++ nonce

/-- Whether a save drops the stored tokens. -/
def credentialsChanged (previous config : IntegrationConfig) : Bool :=
  decide (previous.tokenUrl ≠ config.tokenUrl) || decide (previous.clientId ≠ config.clientId) ||
    decide (previous.flow ≠ config.flow) || decide (previous.authorizeUrl ≠ config.authorizeUrl) ||
    (decide ([' '].intercalate previous.scopes ≠ [' '].intercalate config.scopes) &&
      decide (config.flow = .authorizationCode))

/-! ### The store -/

/-- A callback that carried a state: the attempt as it read it, the nonce of the state, and when it
    found the attempt unexpired. -/
structure Callback where
  row : ConnectRow
  nonce : Text
  checkedAt : ℕ
  deriving DecidableEq, Repr

/-- What a token request is for. -/
inductive Goal where
  | connect (callback : Callback)
  | refresh (task : ℕ)
  deriving DecidableEq, Repr

/-- A token request: where its tokens go, the record it was made from, and its grant. -/
structure Exchange where
  name : Text
  record : IntegrationRecord
  grant : TokenGrant
  origin : ℕ
  goal : Goal
  deriving DecidableEq, Repr

/-- The tables, and the refreshes in flight with what became of the tasks that ended. -/
structure IntegrationStore where
  integrations : Rows IntegrationRow.name
  connects : Rows ConnectRow.id
  inFlightRefresh : Text → Option ℕ
  settled : Text → ℕ → Option (Except Thrown TokenResolution)
  nextTask : ℕ
  /-- The ids of the connect attempts so far. -/
  attempted : List Text
  /-- The states issued so far: the attempt each was issued for, and its nonce. -/
  issued : List (ConnectRow × Text)
  /-- The token requests sent so far, latest first. -/
  requests : List Exchange
  /-- How many grants there were so far. -/
  grants : ℕ
  /-- How many of them there were when the tokens of the name were last dropped for good. -/
  ended : Text → ℕ

def emptyStore : IntegrationStore :=
  ⟨⟨[], List.nodup_nil⟩, ⟨[], List.nodup_nil⟩, fun _ => none, fun _ _ => none, 0, [], [], [],
    0, fun _ => 0⟩

structure Url where
  protocol : Text
  hostname : Text
  origin : Text
  deriving DecidableEq, Repr

/-- What the store takes from its host and the platform. -/
structure Platform where
  userId : Text
  insecureAllowance : List Text
  sha256Hex : Text → Text
  pkceChallenge : Text → Text
  /-- `new URL(text)`; `none` where it throws. -/
  parseUrl : Text → Option Url

def integrationNotFound (name : Text) : Thrown :=
  .kody "integration_not_found" ("Integration \"" ++ name ++ "\" was not found.") 404

def connectLinkInvalid : Thrown :=
  .kody "connect_link_invalid"
    "This connect link is invalid, expired, or was already used. Ask for a new one." 404

def connectStateInvalid : Thrown :=
  .kody "connect_state_invalid" "The OAuth state does not match a pending connect attempt." 400

namespace IntegrationStore

def row (s : IntegrationStore) (name : Text) : Option IntegrationRow := s.integrations.find? name

def require (s : IntegrationStore) (name : Text) : Except Thrown IntegrationRecord :=
  match s.row name with
  | some row => .ok (toRecord row)
  | none => .error (integrationNotFound name)

/-- `UPDATE integrations SET … WHERE name = ?` -/
def update (name : Text) (change : IntegrationRow → IntegrationRow)
    (hname : ∀ row, row.name = name → (change row).name = row.name) (s : IntegrationStore) :
    IntegrationStore :=
  { s with
    integrations := s.integrations.map (fun row => if row.name = name then change row else row)
      fun row => by
        split
        · exact hname row ‹_›
        · rfl }

def updateConnect (id : Text) (change : ConnectRow → ConnectRow)
    (hid : ∀ row, (change row).id = row.id) (s : IntegrationStore) : IntegrationStore :=
  { s with
    connects := s.connects.map (fun row => if row.id = id then change row else row)
      fun row => by
        split
        · exact hid row
        · rfl }

/-- The tokens of the name are dropped: every grant so far has ended for it. -/
def endGrants (name : Text) (s : IntegrationStore) : IntegrationStore :=
  { s with ended := Function.update s.ended name s.grants }

def clearTokens (now : ℕ) (name : Text) (status : IntegrationStatus) (reason : Option Text)
    (s : IntegrationStore) : IntegrationStore :=
  s.update name
    (fun row => { row with
      access := none, refresh := none, tokenType := none, expiresAt := none, grantedScope := none
      status := status
      authFailedAt := if status = .authFailed then some now else none
      authFailedReason := reason, updatedAt := now })
    fun _ _ => rfl

def setConfig (now : ℕ) (config : IntegrationConfig) (s : IntegrationStore) : IntegrationStore :=
  s.update config.name (fun row => { row with config := config, updatedAt := now }) fun _ h => h.symm

/-- `undefined` keeps the stored secret. -/
def setClientSecret (name : Text) (secret : Option (Option Text)) (s : IntegrationStore) :
    IntegrationStore :=
  match secret with
  | none => s
  | some secret => s.update name (fun row => { row with clientSecret := secret }) fun _ _ => rfl

/-- The second half of `save`, from its first `INSERT` or `UPDATE` on.  `secret` is `none` to keep the
    stored secret, `some none` to clear it. -/
def saveRow (startedAt now : ℕ) (existing : Option IntegrationRow) (config : IntegrationConfig)
    (secret : Option (Option Text)) (s : IntegrationStore) :
    Except Thrown IntegrationRecord × IntegrationStore :=
  match existing with
  | none =>
    match s.integrations.insert? ⟨config, secret.join, none, none, none, none, none, .pending, none,
        none, none, none, none, startedAt, startedAt⟩ with
    | none => (.error (.error "UNIQUE constraint failed: integrations.name"), s)
    | some integrations =>
      let s := { s with integrations := integrations }
      (s.require config.name, s)
  | some existing =>
    let s := (s.setConfig startedAt config).setClientSecret config.name secret
    let s := if credentialsChanged existing.config config then
        s.clearTokens now config.name .pending none
      else s
    (s.require config.name, s)

/-- Whether a save changes the client credentials of a row: as it read the row, or as it is now. -/
def changesCredentials (existing : Option IntegrationRow) (config : IntegrationConfig)
    (s : IntegrationStore) : Bool :=
  match existing, s.row config.name with
  | some existing, some current =>
    credentialsChanged existing.config config || credentialsChanged current.config config
  | _, _ => false

def setUsage (now : ℕ) (name : Text) (usage : IntegrationUsage) (s : IntegrationStore) :
    Except Thrown IntegrationRecord × IntegrationStore :=
  match s.require name with
  | .error e => (.error e, s)
  | .ok record =>
    let s := s.update name
      (fun row => { row with
        config := { record.config with name := row.config.name, usage := usage }
        updatedAt := now })
      fun _ _ => rfl
    (s.require name, s)

def delete (name : Text) (s : IntegrationStore) : Bool × IntegrationStore :=
  ((s.row name).isSome,
    { s with
      integrations := s.integrations.filter fun row => decide (row.name ≠ name)
      connects := s.connects.filter fun row => decide (row.name ≠ name) })

def disconnect (now : ℕ) (name : Text) (s : IntegrationStore) :
    Except Thrown IntegrationRecord × IntegrationStore :=
  match s.require name with
  | .error e => (.error e, s)
  | .ok _ =>
    let s := s.clearTokens now name .pending none
    (s.require name, s)

/-! ### The connect flow -/

def connectRow (s : IntegrationStore) (id : Text) : Option ConnectRow := s.connects.find? id

/-- `connectStart` up to the hash of its ticket. -/
def connectStart (name : Text) (s : IntegrationStore) : Except Thrown Unit :=
  match s.require name with
  | .error e => .error e
  | .ok record =>
    if record.config.flow ≠ .authorizationCode then
      .error (.kody "integration_flow_mismatch"
        ("Integration \"" ++ name ++
          "\" uses client_credentials; connect it with integrationTokenRefresh instead."))
    else .ok ()

/-- The statements of `connectStart`: the new link replaces the open ones. -/
def insertConnect (startedAt : ℕ) (id name ticketHash redirectUri : Text) (s : IntegrationStore) :
    Except Thrown Unit × IntegrationStore :=
  match s.connects.insert? ⟨id, name, ticketHash, none, none, redirectUri, startedAt,
      startedAt + connectTicketTtlMs, none, none, none⟩ with
  | none => (.error (.error "UNIQUE constraint failed: integration_connects.id"), s)
  | some connects =>
    (.ok (), { s with
      connects := connects.filter fun row =>
        !(decide (row.name = name) && decide (row.id ≠ id) && row.completedAt.isNone)
      attempted := id :: s.attempted })

/-- The checks of `connectBegin` before its ticket is hashed. -/
def connectBegin (now : ℕ) (connectId : Text) (s : IntegrationStore) : Except Thrown ConnectRow :=
  match s.connectRow connectId with
  | none => .error connectLinkInvalid
  | some row =>
    if row.startedAt ≠ none ∨ row.completedAt ≠ none then .error connectLinkInvalid
    else if row.expiresAt ≤ now then .error connectLinkInvalid
    else .ok row

/-- The `UPDATE` of `connectBegin`, which burns the ticket and makes the state usable. -/
def startConnect (startedAt : ℕ) (row : ConnectRow) (nonce nonceHash verifier : Text)
    (s : IntegrationStore) : IntegrationStore :=
  { s.updateConnect row.id
      (fun connect => { connect with
        startedAt := some startedAt, nonceHash := some nonceHash, verifier := some verifier })
      (fun _ => rfl) with
    issued := (row, nonce) :: s.issued }

/-- The checks of `connectComplete` before its nonce is hashed. -/
def connectComplete (connectId : Text) (s : IntegrationStore) : Except Thrown ConnectRow :=
  match s.connectRow connectId with
  | none => .error connectStateInvalid
  | some row =>
    if row.startedAt = none ∨ row.completedAt ≠ none ∨ row.nonceHash = none then
      .error connectStateInvalid
    else .ok row

def finishConnect (now : ℕ) (id : Text) (error : Option Text) (s : IntegrationStore) :
    IntegrationStore :=
  s.updateConnect id (fun row => { row with completedAt := some now, error := error }) fun _ => rfl

/-- A failed connect only downgrades an integration that has no live token. -/
def failAuth (now : ℕ) (record : IntegrationRecord) (reason : Text) (s : IntegrationStore) :
    IntegrationStore :=
  if record.status ≠ .connected then
    s.clearTokens now record.config.name .authFailed (some reason)
  else s

/-! ### Token requests -/

/-- `requestTokens` up to the sealed client secret. -/
def requestTokens (p : Platform) (record : IntegrationRecord) (s : IntegrationStore) :
    Except Thrown (Option Text) :=
  match s.row record.config.name with
  | none => .error (integrationNotFound record.config.name)
  | some row =>
    match p.parseUrl record.config.tokenUrl with
    | none => .error (.error "Invalid URL")
    | some url =>
      if isCredentialTransportAllowed url.protocol url.hostname p.insecureAllowance then
        .ok row.clientSecret
      else
        .error (.kody "integration_requires_https" ("tokenUrl " ++ url.origin ++ " must use https.")
          403)

/-- The statements of `storeTokens`. -/
def storeTokens (now : ℕ) (name : Text) (tokens : TokenResponse) (origin : ℕ) (keepRefresh : Bool)
    (s : IntegrationStore) : IntegrationStore :=
  s.update name
    (fun row => { row with
      access := some ⟨tokens.accessToken, origin⟩
      refresh := match tokens.refreshToken with
        | some refreshToken => some ⟨refreshToken, origin⟩
        | none => if keepRefresh then row.refresh else none
      tokenType := some tokens.tokenType
      expiresAt := tokens.expiresAt
      grantedScope := tokens.scope
      status := .connected
      connectedAt := row.connectedAt.or (some now)
      refreshedAt := some now
      authFailedAt := none, authFailedReason := none, updatedAt := now })
    fun _ _ => rfl

/-- What a failed refresh leaves: a dead grant is dropped, another failure only noted. -/
def failRefresh (now : ℕ) (name : Text) (error : TokenError) (s : IntegrationStore) :
    IntegrationStore :=
  let reason := error.thrown.message.take 200
  if error.providerError = some "invalid_grant" ∨ error.providerError = some "invalid_client" then
    s.clearTokens now name .authFailed (some reason)
  else
    s.update name
      (fun row => { row with
        authFailedAt := some now, authFailedReason := some reason, updatedAt := now })
      fun _ _ => rfl

def touch (now : ℕ) (name : Text) (s : IntegrationStore) : IntegrationStore :=
  s.update name (fun row => { row with lastUsedAt := some now }) fun _ _ => rfl

end IntegrationStore

open IntegrationStore

/-! ### Calls -/

structure ResolveInput where
  name : Text
  packageName : Option Text
  host : Text
  forceRefresh : Bool
  deriving DecidableEq, Repr

structure CompleteInput where
  connectId : Text
  nonce : Text
  code : Option Text
  providerError : Option Text
  deriving DecidableEq, Repr

inductive Call where
  /-- `clientSecret` is `none` for `undefined`, `some none` for `null`. -/
  | save (config : IntegrationConfig) (clientSecret : Option (Option Text))
  | setUsage (name : Text) (usage : IntegrationUsage)
  | delete (name : Text)
  | disconnect (name : Text)
  | connectStart (name redirectUri : Text)
  | connectBegin (connectId ticket : Text)
  | connectComplete (input : CompleteInput)
  | refresh (name : Text)
  | tokenResolve (input : ResolveInput)
  deriving DecidableEq, Repr

/-- Where a call stands. -/
inductive Frame where
  | start (call : Call)
  | saveSealing (startedAt : ℕ) (existing : Option IntegrationRow) (config : IntegrationConfig)
      (clientSecret : Text)
  | ticketHashing (startedAt : ℕ) (id ticket name redirectUri : Text)
  | ticketChecking (row : ConnectRow) (ticket : Text)
  | verifierSealing (row : ConnectRow) (record : IntegrationRecord) (verifier nonce : Text)
  | nonceHashing (row : ConnectRow) (record : IntegrationRecord) (verifier nonce : Text)
      (startedAt : ℕ)
  | challenging (row : ConnectRow) (record : IntegrationRecord) (verifier nonce : Text)
  | nonceChecking (row : ConnectRow) (input : CompleteInput) (origin : ℕ)
  | openingVerifier (callback : Callback) (record : IntegrationRecord) (code verifier : Text)
      (origin : ℕ)
  | openingRefresh (name : Text) (task : ℕ) (record : IntegrationRecord) (held : Held)
  | openingSecret (x : Exchange) (clientSecret : Text)
  | fetching (x : Exchange) (clientSecret : Option Text)
  | sealing (x : Exchange) (tokens : TokenResponse)
  | stored (x : Exchange)
  | failed (x : Exchange) (error : TokenError)
  | openingFresh (name : Text) (task : ℕ) (record : IntegrationRecord) (held : Option Held)
  | settling (name : Text) (task : ℕ) (result : Except Thrown TokenResolution)
  | waiting (name : Text) (task : ℕ)
  | opening (name : Text) (record : IntegrationRecord) (held : Held)

/-- What a call returned.  A resolution comes with the number of grants that had ended for its name. -/
inductive Ret where
  | record (answer : Except Thrown IntegrationRecord)
  | deleted (deleted : Bool)
  | started (answer : Except Thrown ConnectTicket)
  | begun (answer : Except Thrown AuthorizeInput)
  | completed (answer : Except Thrown (IntegrationRecord × Option ConnectRecord))
  | resolved (answer : Except Thrown TokenResolution) (ended : ℕ)

/-- What the outside supplies to one piece: the clock, random values, whether an awaited seal or
    decryption was rejected, and the answer of the token endpoint. -/
structure Input where
  now : ℕ
  draw : Text
  extra : Text
  rejected : Option Text
  reply : Except TokenError TokenResponse

/-! ### The next piece of a call -/

section
variable (p : Platform)

/-- `requestTokens` once the client secret is known. -/
def sendTokenRequest (x : Exchange) (clientSecret : Option Text) (s : IntegrationStore) :
    IntegrationStore × Frame :=
  if x.grant = .clientCredentials ∧ clientSecret = none then
    (s, .failed x ⟨.kody "integration_client_secret_required"
      "client_credentials needs a clientSecret.", none⟩)
  else ({ s with requests := x :: s.requests }, .fetching x clientSecret)

def beginExchange (x : Exchange) (s : IntegrationStore) : IntegrationStore × Frame :=
  match requestTokens p x.record s with
  | .error e => (s, .failed x ⟨e, none⟩)
  | .ok (some clientSecret) => (s, .openingSecret x clientSecret)
  | .ok none => sendTokenRequest x none s

/-- `refreshNow` up to its first `await`. -/
def refreshNow (name : Text) (task : ℕ) (s : IntegrationStore) : IntegrationStore × Frame :=
  match s.row name with
  | none =>
    (s, .settling name task (.ok (.denied "integration_not_found" 404
      ("Integration \"" ++ name ++ "\" was not found.") none)))
  | some row =>
    let record := toRecord row
    match record.config.flow with
    | .clientCredentials =>
      beginExchange p ⟨name, record, .clientCredentials, s.grants, .refresh task⟩
        { s with grants := s.grants + 1 }
    | .authorizationCode =>
      match row.refresh with
      | none =>
        (s, .settling name task (.ok (.denied "integration_reconnect_required" 401
          ("Integration \"" ++ name ++
            "\" has no refresh token; reconnect it with integrationConnect.") (some record))))
      | some held => (s, .openingRefresh name task record held)

/-- A refresh in flight is shared; otherwise one starts. -/
def refresh (name : Text) (s : IntegrationStore) : IntegrationStore × Frame :=
  match s.inFlightRefresh name with
  | some task => (s, .waiting name task)
  | none =>
    refreshNow p name s.nextTask { s with
      inFlightRefresh := Function.update s.inFlightRefresh name (some s.nextTask)
      nextTask := s.nextTask + 1 }

/-- The text of a refused package. -/
def lockedMessage (name : Text) (usage : IntegrationUsage) (packageName : Option Text) : Text :=
  let packages := match usage with
    | .any => []
    | .packages packages => (", " : Text).intercalate packages
  let caller : Text := match packageName with
    | some package => if package = [] then "ad hoc execute" else "package \"" ++ package ++ "\""
    | none => "ad hoc execute"
  "Integration \"" ++ name ++ "\" is locked to package(s) " ++ packages ++ "; " ++ caller ++
    " may not use it."

def notConnectedMessage (name : Text) (record : IntegrationRecord) : Text :=
  let last : Text := if record.status = .authFailed then
      "Last error: " ++ record.authFailedReason.getD "unknown" ++ ". "
    else ""
  "Integration \"" ++ name ++ "\" is " ++ record.status.text ++ ". " ++ last ++
    "Get a connect link with integrationConnect and open it in a browser."

/-- `tokenResolve` up to its first `await`. -/
def tokenResolve (now : ℕ) (input : ResolveInput) (s : IntegrationStore) :
    IntegrationStore × (Frame ⊕ TokenResolution) :=
  match s.row input.name with
  | none =>
    (s, .inr (.denied "integration_not_found" 404 ("Integration \"" ++ input.name ++
      "\" was not found. Save it with integrationSave first.") none))
  | some row =>
    let record := toRecord row
    if !usagePermits record.config.usage input.packageName then
      (s, .inr (.denied "integration_locked" 403
        (lockedMessage input.name record.config.usage input.packageName) (some record)))
    else if !isHostApproved input.host record.config.allowedHosts then
      (s, .inr (.denied "integration_host_not_allowed" 403
        ("Integration \"" ++ input.name ++ "\" may only be sent to " ++
          (", " : Text).intercalate record.config.allowedHosts ++ "; \"" ++ input.host ++
          "\" is not in its allowedHosts.") (some record)))
    else
      match row.access, record.status with
      | some held, .connected =>
        if input.forceRefresh || isTokenExpired record.expiresAt now then
          let r := refresh p input.name s
          (r.1, .inl r.2)
        else (s.touch now input.name, .inl (.opening input.name record held))
      | _, _ =>
        if record.config.flow = .clientCredentials then
          let r := refresh p input.name s
          (r.1, .inl r.2)
        else
          (s, .inr (.denied "integration_not_connected" 401
            (notConnectedMessage input.name record) (some record)))

/-- The answer of a refresh that failed. -/
def refreshFailure (error : TokenError) (record : IntegrationRecord) : TokenResolution :=
  match error.thrown with
  | .kody code message status => .denied code status message (some record)
  | other => .denied "oauth_token_error" 502 other.message (some record)

/-- The middle of `connectComplete`: from the nonce's hash to the sealed verifier. -/
def completeChecked (now : ℕ) (row : ConnectRow) (input : CompleteInput) (origin : ℕ)
    (s : IntegrationStore) : IntegrationStore × (Frame ⊕ Thrown) :=
  if some (p.sha256Hex input.nonce) ≠ row.nonceHash then (s, .inr connectStateInvalid)
  else
    match s.require row.name with
    | .error e => (s, .inr e)
    | .ok record =>
      if row.expiresAt + connectTicketTtlMs ≤ now then
        (s.finishConnect now row.id (some "expired"), .inr (.kody "connect_link_invalid"
          "This connect attempt expired. Ask for a new link." 400))
      else
        match input.providerError, input.code with
        | none, some code =>
          match row.verifier with
          | none => (s, .inr connectStateInvalid)
          | some verifier =>
            (s, .inl (.openingVerifier ⟨row, input.nonce, now⟩ record code verifier origin))
        | providerError, _ =>
          let reason := (providerError.getD "missing_code").take 120
          ((s.finishConnect now row.id (some reason)).failAuth now record ("provider: " ++ reason),
            .inr (.kody "oauth_denied" ("The provider returned \"" ++ reason ++
              "\" instead of an authorization code.") 400))

/-- The first piece of a call. -/
def begin (s : IntegrationStore) (call : Call) (i : Input) : IntegrationStore × (Frame ⊕ Ret) :=
  match call with
  | .save config clientSecret =>
    let existing := s.row config.name
    match clientSecret with
    | some (some clientSecret) => (s, .inl (.saveSealing i.now existing config clientSecret))
    | none | some none =>
      let r := s.saveRow i.now i.now existing config clientSecret
      (r.2, .inr (.record r.1))
  | .setUsage name usage =>
    let r := s.setUsage i.now name usage
    (r.2, .inr (.record r.1))
  | .delete name =>
    let r := s.delete name
    (r.2, .inr (.deleted r.1))
  | .disconnect name =>
    let r := s.disconnect i.now name
    (r.2, .inr (.record r.1))
  | .connectStart name redirectUri =>
    match s.connectStart name with
    | .error e => (s, .inr (.started (.error e)))
    | .ok _ => (s, .inl (.ticketHashing i.now i.draw i.extra name redirectUri))
  | .connectBegin connectId ticket =>
    match s.connectBegin i.now connectId with
    | .error e => (s, .inr (.begun (.error e)))
    | .ok row => (s, .inl (.ticketChecking row ticket))
  | .connectComplete input =>
    match s.connectComplete input.connectId with
    | .error e => (s, .inr (.completed (.error e)))
    | .ok row =>
      -- the code stands for a grant of its own, given before the call
      ({ s with grants := s.grants + 1 }, .inl (.nonceChecking row input s.grants))
  | .refresh name =>
    let r := refresh p name s
    (r.1, .inl r.2)
  | .tokenResolve input =>
    match tokenResolve p i.now input s with
    | (s', .inl frame) => (s', .inl frame)
    | (s', .inr answer) => (s', .inr (.resolved (.ok answer) (s.ended input.name)))

/-- Runs a call up to its next `await` or its return. -/
def piece (s : IntegrationStore) : Frame → Input → IntegrationStore × (Frame ⊕ Ret)
  | .start call, i => begin p s call i
  | .saveSealing startedAt existing config clientSecret, i =>
    match i.rejected with
    | some message => (s, .inr (.record (.error (.error message))))
    | none =>
      let r := s.saveRow startedAt i.now existing config (some (some clientSecret))
      (r.2, .inr (.record r.1))
  | .ticketHashing startedAt id ticket name redirectUri, _ =>
    let r := s.insertConnect startedAt id name (p.sha256Hex ticket) redirectUri
    (r.2, .inr (.started (r.1.map fun _ => ⟨id, ticket, startedAt + connectTicketTtlMs⟩)))
  | .ticketChecking row ticket, i =>
    if p.sha256Hex ticket ≠ row.ticketHash then (s, .inr (.begun (.error connectLinkInvalid)))
    else
      match s.require row.name with
      | .error e => (s, .inr (.begun (.error e)))
      | .ok record => (s, .inl (.verifierSealing row record i.draw i.extra))
  | .verifierSealing row record verifier nonce, i =>
    match i.rejected with
    | some message => (s, .inr (.begun (.error (.error message))))
    | none => (s, .inl (.nonceHashing row record verifier nonce i.now))
  | .nonceHashing row record verifier nonce startedAt, _ =>
    (s.startConnect startedAt row nonce (p.sha256Hex nonce) verifier,
      .inl (.challenging row record verifier nonce))
  | .challenging row record verifier nonce, _ =>
    if record.config.authorizeUrl = none then
      (s, .inr (.begun (.error (.kody "invalid_args" "This integration has no authorizeUrl."))))
    else
      (s, .inr (.begun (.ok ⟨record.config, row.redirectUri, encodeState p.userId row.id nonce,
        p.pkceChallenge verifier⟩)))
  | .nonceChecking row input origin, i =>
    match completeChecked p i.now row input origin s with
    | (s', .inl frame) => (s', .inl frame)
    | (s', .inr e) => (s', .inr (.completed (.error e)))
  | .openingVerifier callback record code verifier origin, i =>
    match i.rejected with
    | some message => (s, .inr (.completed (.error (.error message))))
    | none =>
      let r := beginExchange p ⟨record.config.name, record,
        .authorizationCode code callback.row.redirectUri verifier, origin, .connect callback⟩ s
      (r.1, .inl r.2)
  | .openingRefresh name task record held, i =>
    match i.rejected with
    | some message => (s, .inl (.settling name task (.error (.error message))))
    | none =>
      let r := beginExchange p
        ⟨name, record, .refreshToken held.token, held.origin, .refresh task⟩ s
      (r.1, .inl r.2)
  | .openingSecret x clientSecret, i =>
    match i.rejected with
    | some message => (s, .inl (.failed x ⟨.error message, none⟩))
    | none =>
      let r := sendTokenRequest x (some clientSecret) s
      (r.1, .inl r.2)
  | .fetching x _, i =>
    match i.reply with
    | .error e => (s, .inl (.failed x e))
    | .ok tokens => (s, .inl (.sealing x tokens))
  | .sealing x tokens, i =>
    match i.rejected with
    | some message => (s, .inl (.failed x ⟨.error message, none⟩))
    | none =>
      let keepRefresh := match x.goal with
        | .connect _ => false
        | .refresh _ => true
      (s.storeTokens i.now x.name tokens x.origin keepRefresh, .inl (.stored x))
  | .stored x, i =>
    match x.goal with
    | .connect callback =>
      let s := s.finishConnect i.now callback.row.id none
      (s, .inr (.completed ((s.require x.name).map fun record =>
        (record, (s.connectRow callback.row.id).map toConnect))))
    | .refresh task =>
      match s.row x.name with
      | none => (s, .inl (.settling x.name task (.error (integrationNotFound x.name))))
      | some row => (s, .inl (.openingFresh x.name task (toRecord row) row.access))
  | .failed x error, i =>
    match x.goal with
    | .connect callback =>
      let reason := error.thrown.message.take 200
      ((s.finishConnect i.now callback.row.id (some reason)).failAuth i.now x.record reason,
        .inr (.completed (.error error.thrown)))
    | .refresh task =>
      let s := s.failRefresh i.now x.name error
      (s, .inl (.settling x.name task ((s.require x.name).map (refreshFailure error))))
  | .openingFresh name task record held, i =>
    match held, i.rejected with
    | some held, none => (s, .inl (.settling name task (.ok (.ok held record true))))
    | _, some message => (s, .inl (.settling name task (.error (.error message))))
    | none, none =>
      (s, .inl (.settling name task
        (.error (.error "Cannot read properties of null (reading 'keyId')"))))
  | .settling name task result, _ =>
    ({ s with
        inFlightRefresh := Function.update s.inFlightRefresh name none
        settled := Function.update s.settled name
          (Function.update (s.settled name) task (some result)) },
      .inl (.waiting name task))
  | .waiting name task, _ =>
    match s.settled name task with
    | none => (s, .inl (.waiting name task))
    | some result => (s, .inr (.resolved result (s.ended name)))
  | .opening name record held, i =>
    match i.rejected with
    | some message => (s, .inr (.resolved (.error (.error message)) (s.ended name)))
    | none => (s, .inr (.resolved (.ok (.ok held record false)) (s.ended name)))

/-- The integration whose tokens the piece drops for good: a disconnect, a delete, or a save that
    changes the client credentials returns from it. -/
def Frame.ends (s : IntegrationStore) (i : Input) : Frame → Option Text
  | .start (.disconnect name) => if (s.row name).isSome then some name else none
  | .start (.delete name) => some name
  | .start (.save config none) | .start (.save config (some none)) =>
    if s.changesCredentials (s.row config.name) config then some config.name else none
  | .saveSealing _ existing config _ =>
    if i.rejected = none ∧ s.changesCredentials existing config then some config.name else none
  | _ => none

/-- Runs a piece and keeps the count of ended grants. -/
def run (s : IntegrationStore) (f : Frame) (i : Input) : IntegrationStore × (Frame ⊕ Ret) :=
  match f.ends s i with
  | some name => ((piece p s f i).1.endGrants name, (piece p s f i).2)
  | none => piece p s f i

/-- The id that the piece gives to a new connect attempt. -/
def Frame.attempt : Frame → Option Text
  | .ticketHashing _ id _ _ _ => some id
  | _ => none

/-- A new attempt has an id that no attempt had before. -/
def resume (s : IntegrationStore) (f : Frame) (i : Input) :
    Option (IntegrationStore × (Frame ⊕ Ret)) :=
  if ∃ id ∈ f.attempt, id ∈ s.attempted then none else some (run p s f i)

/-- The store as a system of concurrent calls. -/
abbrev integrations : Coop where
  Shared := IntegrationStore
  Call := Call
  Frame := Frame
  Input := Input
  Ret := Ret
  start := Frame.start
  resume := resume p

/-- The store before its first call. -/
def freshIntegrations : Coop.Config (integrations p) := @Coop.idle (integrations p) emptyStore

end

end KodyCelld.Integrations
