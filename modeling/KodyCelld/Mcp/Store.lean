import KodyCelld.Errors
import KodyCelld.Integrations.Store
import KodyCelld.Lib.Rows

namespace KodyCelld.Mcp

open KodyCelld.Lib
open KodyCelld.Integrations (IntegrationUsage Held)

/-!
# MCP servers and their OAuth rows (`mcp-client/store.ts`, `mcp-client/oauth-store.ts`)

The tables of one user's cell, and the statements of the two stores between their `await`s.

Sealed columns are kept as their plaintexts.  Beside what the source stores, a token carries the
number of the grant it was obtained from (`Held.origin`), a row lists the servers whose sign-ins wrote
to it (`writers`), and the cell keeps the history that the claims about it speak of: the ids issued and
removed, the sign-ins begun and committed, for each name the grant that was committed last and not
cleared since (`live`), and what was done to grants (`acts`).  Nothing the source computes depends on
these.

* `McpCell` — the tables, the map of refreshes in flight and the generations;
* `McpCell.clearTokens`, `McpCell.clear`, `McpCell.commitGrant`, `McpCell.writeTokens` — the
  statements that change which grant is stored;
* `McpCell.saveRow`, `McpCell.remove`, `McpCell.setDiscovery` — those on the server rows.
-/

/-! ### Rows -/

inductive AuthKind where
  | none | bearer | oauth
  deriving DecidableEq, Repr

inductive ServerStatus where
  | ready | error | authenticating
  deriving DecidableEq, Repr

structure McpLastError where
  phase : Text
  message : Text
  instant : ℕ
  deriving DecidableEq, Repr

/-- A row of `mcp_servers`; columns that hold JSON nothing looks into are kept as texts. -/
structure ServerRow where
  id : Text
  name : Text
  url : Text
  enabled : Bool
  usage : IntegrationUsage
  auth : AuthKind
  bearer : Option Text
  status : ServerStatus
  lastError : Option McpLastError
  serverInfo : Option Text
  tools : Text
  toolsRefreshedAt : Option ℕ
  createdAt : ℕ
  updatedAt : ℕ
  /-- The ids of the servers whose sign-ins wrote to the row. -/
  writers : List Text
  deriving DecidableEq, Repr

inductive McpOAuthClientMode where
  | preregistered | metadata | dynamic
  deriving DecidableEq, Repr

/-- `OAuthClientInformationMixed`; `rest` is the JSON of the other fields. -/
structure ClientInformation where
  clientId : Text
  clientSecret : Option Text
  issuer : Option Text
  rest : Text
  deriving DecidableEq, Repr

structure McpOAuthClient where
  mode : McpOAuthClientMode
  information : ClientInformation
  deriving DecidableEq, Repr

/-- What is read of a discovery: the authorization server, and whether its metadata says that
    callbacks carry an `iss`. -/
structure OAuthDiscoveryState where
  authorizationServerUrl : Text
  issParameterSupported : Bool
  deriving DecidableEq, Repr

/-- A row of `mcp_server_oauth`. -/
structure OAuthRow where
  serverName : Text
  clientMode : Option McpOAuthClientMode
  clientId : Option Text
  clientSecret : Option Text
  clientIssuer : Option Text
  clientInfo : Option Text
  discovery : Option OAuthDiscoveryState
  challenge : Option Text
  access : Option Held
  refresh : Option Held
  tokenIssuer : Option Text
  tokenType : Option Text
  scope : Option Text
  expiresAt : Option ℕ
  refreshedAt : Option ℕ
  createdAt : ℕ
  updatedAt : ℕ
  /-- The ids of the servers whose sign-ins wrote to the row. -/
  writers : List Text
  deriving DecidableEq, Repr

/-- A row of `mcp_server_oauth_pending`. -/
structure PendingRow where
  state : Text
  serverName : Text
  serverOrigin : Text
  serverUrl : Text
  serverId : Option Text
  clientId : Option Text
  verifier : Text
  redirectUri : Text
  createdAt : ℕ
  expiresAt : ℕ
  completedAt : Option ℕ
  deriving DecidableEq, Repr

structure McpOAuthSummary where
  clientMode : Option McpOAuthClientMode
  clientId : Option Text
  hasClientSecret : Bool
  hasAccessToken : Bool
  hasRefreshToken : Bool
  expiresAt : Option ℕ
  deriving DecidableEq, Repr

structure McpServerRecord where
  id : Text
  name : Text
  url : Text
  enabled : Bool
  usage : IntegrationUsage
  auth : AuthKind
  status : ServerStatus
  oauth : Option McpOAuthSummary
  lastError : Option McpLastError
  serverInfo : Option Text
  tools : Text
  toolsRefreshedAt : Option ℕ
  createdAt : ℕ
  updatedAt : ℕ
  deriving DecidableEq, Repr

def summary (row : OAuthRow) : McpOAuthSummary :=
  ⟨row.clientMode, row.clientId, row.clientSecret.isSome, row.access.isSome, row.refresh.isSome,
    row.expiresAt⟩

def toRecord (row : ServerRow) (oauth : Option McpOAuthSummary) : McpServerRecord :=
  ⟨row.id, row.name, row.url, row.enabled, row.usage, row.auth, row.status, oauth, row.lastError,
    row.serverInfo, row.tools, row.toolsRefreshedAt, row.createdAt, row.updatedAt⟩

/-! ### Tokens and clients -/

/-- A string that the source tests for truth. -/
def truthy (text : Option Text) : Option Text := text.filter fun text => decide (text ≠ [])

/-- The response of a token endpoint. -/
structure OAuthTokens where
  accessToken : Text
  refreshToken : Option Text
  tokenType : Text
  scope : Option Text
  expiresIn : Option ℕ
  issuer : Option Text
  deriving DecidableEq, Repr

structure McpOAuthTokenSet where
  accessToken : Held
  refreshToken : Option Held
  tokenType : Text
  scope : Option Text
  expiresAt : Option ℕ
  issuer : Option Text
  deriving DecidableEq, Repr

structure SealedClient where
  clientId : Text
  secret : Option Text
  issuer : Option Text
  infoJson : Text
  deriving DecidableEq, Repr

structure SealedTokens where
  access : Text
  refresh : Option Text
  tokenType : Text
  scope : Option Text
  expiresAt : Option ℕ
  issuer : Option Text
  deriving DecidableEq, Repr

def sealClient (information : ClientInformation) : SealedClient :=
  ⟨information.clientId, truthy information.clientSecret, information.issuer, information.rest⟩

def sealTokens (now : ℕ) (tokens : OAuthTokens) : SealedTokens :=
  ⟨tokens.accessToken, truthy tokens.refreshToken, tokens.tokenType, tokens.scope,
    tokens.expiresIn.map fun seconds => now + seconds * 1000, tokens.issuer⟩

/-- The client of a row; `none` while the row names none. -/
def client (row : Option OAuthRow) : Option McpOAuthClient :=
  row.bind fun row =>
    match truthy row.clientId, row.clientMode with
    | some clientId, some mode =>
      some ⟨mode, clientId, truthy row.clientSecret, truthy row.clientIssuer,
        row.clientInfo.getD "\x7b\x7d"⟩
    | _, _ => none

/-- The tokens of a row; an empty access token is none. -/
def tokens (row : Option OAuthRow) : Option McpOAuthTokenSet :=
  row.bind fun row =>
    (row.access.filter fun held => decide (held.token ≠ [])).map fun access =>
      ⟨access, row.refresh, row.tokenType.getD "Bearer", row.scope, row.expiresAt, row.tokenIssuer⟩

/-! ### Errors of a refresh (`oauth-store.ts`, `client.ts`) -/

/-- What a refresh throws: the code of an `OAuthError`, and the message. -/
structure RefreshError where
  errorCode : Option Text
  message : Text
  deriving DecidableEq, Repr

/-- `\w` -/
def isWordChar (c : Char) : Bool := isDigit c || isLetter c || c == '_'

/-- `/\bword\b/.test(text)` for a word of word characters; the flag says whether the character before
    the text is one. -/
def containsWord (word : Text) : Bool → Text → Bool
  | _, [] => false
  | within, c :: cs =>
    (!within && word.isPrefixOf (c :: cs) &&
      !((c :: cs).drop word.length).head?.any isWordChar) ||
    containsWord word (isWordChar c) cs

def isInvalidGrant (error : RefreshError) : Bool :=
  decide (error.errorCode = some "invalid_grant") ||
    containsWord "invalid_grant" false error.message

/-- `text.split(old).join(new)`; the number says how many characters of an occurrence are left. -/
def replaceAll (old new : Text) : ℕ → Text → Text
  | _, [] => []
  | k + 1, _ :: cs => replaceAll old new k cs
  | 0, c :: cs =>
    if old.isPrefixOf (c :: cs) then new ++ replaceAll old new (old.length - 1) cs
    else c :: replaceAll old new 0 cs

/-- `secret.replace(/^\S+\s+/, '')` -/
def stripScheme (secret : Text) : Text :=
  let rest := secret.dropWhile fun c => !isSpace c
  if rest = [] ∨ rest.length = secret.length then secret else rest.dropWhile isSpace

/-- Every secret, and what follows its scheme, longest first. -/
def redactSecrets (text : Text) (secrets : List (Option Text)) : Text :=
  let all := ((secrets.filterMap truthy).flatMap fun secret =>
    secret :: (truthy (some (stripScheme secret))).toList).reverse.dedup.reverse
  let longest := all.insertionSort fun a b => utf16Length b ≤ utf16Length a
  longest.foldl (fun out secret => replaceAll secret "[redacted]" 0 out) text

/-! ### Results -/

/-- What `accessToken` answers. -/
inductive McpAccessResult where
  | ok (accessToken : Held)
  | failed (status : ServerStatus) (message : Text)
  deriving DecidableEq, Repr

/-- What a reader of the tokens found under the name: the grant that was stored, the generation, and
    how many grants had been committed. -/
structure Basis where
  origin : Option ℕ
  generation : ℕ
  commits : ℕ
  deriving DecidableEq, Repr

/-- What `setDiscovery` is told. -/
inductive McpDiscoveryOutcome where
  | ready (serverInfo tools : Text)
  | error (error : McpLastError)
  | auth (status : ServerStatus) (error : McpLastError) (origin : Option Text)
      (challenge : Option (Option Text))
  deriving DecidableEq, Repr

structure SaveInput where
  name : Text
  url : Text
  enabled : Bool
  usage : IntegrationUsage
  authorization : Option Text
  replace : Bool
  deriving DecidableEq, Repr

/-! ### The cell -/

/-- What an operation did to the grant of a server. -/
inductive ActKind where
  | overwrite | clear | mark
  deriving DecidableEq, Repr

/-- An operation on the grant of a server: the grant it started from, and the one that was live. -/
structure Act where
  kind : ActKind
  name : Text
  started : Option ℕ
  live : Option ℕ
  deriving DecidableEq, Repr

/-- A sign-in: the record it was begun on, and the row that waits for its callback. -/
structure SignIn where
  record : McpServerRecord
  pending : PendingRow
  deriving DecidableEq, Repr

/-- A grant that was committed: for which attempt, and the server and client it met. -/
structure Commit where
  pending : PendingRow
  row : ServerRow
  storedClientId : Option Text
  deriving DecidableEq, Repr

structure McpCell where
  servers : Rows ServerRow.name
  oauth : Rows OAuthRow.serverName
  pending : Rows PendingRow.state
  inFlight : Text → Option ℕ
  generation : Text → ℕ
  /-- What became of the refreshes that ended. -/
  settled : Text → ℕ → Option (Except Thrown McpAccessResult × Basis)
  nextTask : ℕ
  /-- The server ids given so far. -/
  issued : List Text
  /-- The ids of the servers removed. -/
  removed : List Text
  begun : List SignIn
  commits : List Commit
  /-- How many grants were committed so far. -/
  grants : ℕ
  /-- How many of them for the name. -/
  committed : Text → ℕ
  /-- The grant committed last for the name, unless it was cleared since. -/
  live : Text → Option ℕ
  acts : List Act

def emptyCell : McpCell :=
  ⟨⟨[], List.nodup_nil⟩, ⟨[], List.nodup_nil⟩, ⟨[], List.nodup_nil⟩, fun _ => none, fun _ => 0,
    fun _ _ => none, 0, [], [], [], [], 0, fun _ => 0, fun _ => none, []⟩

structure Platform where
  /-- `new URL(text).origin`; `none` where it throws. -/
  origin : Text → Option Text
  callbackUrl : Text

def sameOrigin (p : Platform) (a b : Text) : Bool :=
  match p.origin a, p.origin b with
  | some a, some b => decide (a = b)
  | _, _ => false

def oauthAttemptIdentityMatches (pendingServerId pendingClientId serverId clientId : Option Text) :
    Bool :=
  (truthy pendingServerId).isSome && decide (serverId = pendingServerId) &&
    (truthy pendingClientId).isSome && decide (clientId = pendingClientId)

def mcpOAuthPendingTtlMs : ℕ := 15 * 60000

def mcpChallengeMaxLength : ℕ := 2048

/-- `text.replace(/[\r\n]+/g, ' ')`; the flag says whether a run of line breaks is being read. -/
def foldLines : Bool → Text → Text
  | _, [] => []
  | within, c :: cs =>
    if c = '\r' ∨ c = '\n' then
      if within then foldLines true cs else ' ' :: foldLines true cs
    else c :: foldLines false cs

namespace McpCell

/-! ### The OAuth rows (`oauth-store.ts`) -/

def oauthRow (s : McpCell) (name : Text) : Option OAuthRow := s.oauth.find? name

/-- `UPDATE mcp_server_oauth SET … WHERE server_name = ?` -/
def updateOAuth (name : Text) (change : OAuthRow → OAuthRow)
    (hname : ∀ row, (change row).serverName = row.serverName) (s : McpCell) : McpCell :=
  { s with
    oauth := s.oauth.map (fun row => if row.serverName = name then change row else row)
      fun row => by
        split
        · exact hname row
        · rfl }

/-- The row that `ensureRow` inserts. -/
def emptyRow (now : ℕ) (name : Text) : OAuthRow :=
  ⟨name, none, none, none, none, none, none, none, none, none, none, none, none, none, none, now, now,
    []⟩

def ensureRow (now : ℕ) (name : Text) (s : McpCell) : McpCell :=
  { s with oauth := s.oauth.upsert (emptyRow now name) id fun _ => rfl }

def storedClientId (s : McpCell) (name : Text) : Option Text :=
  (s.oauthRow name).bind OAuthRow.clientId

def writeClient (now : ℕ) (name : Text) (mode : McpOAuthClientMode) (client : SealedClient)
    (s : McpCell) : McpCell :=
  (s.ensureRow now name).updateOAuth name
    (fun row => { row with
      clientMode := some mode, clientId := some client.clientId, clientSecret := client.secret
      clientIssuer := client.issuer, clientInfo := some client.infoJson, updatedAt := now })
    fun _ => rfl

def storedMode (s : McpCell) (name : Text) : McpOAuthClientMode :=
  ((s.oauthRow name).bind OAuthRow.clientMode).getD .dynamic

def bumpGeneration (name : Text) (s : McpCell) : McpCell :=
  { s with generation := Function.update s.generation name (s.generation name + 1) }

/-- No grant of the name is live. -/
def endGrant (name : Text) (s : McpCell) : McpCell :=
  { s with live := Function.update s.live name none }

def withoutTokens (now : ℕ) (row : OAuthRow) : OAuthRow :=
  { row with
    access := none, refresh := none, tokenIssuer := none, tokenType := none, scope := none
    expiresAt := none, updatedAt := now }

def clearTokens (now : ℕ) (name : Text) (s : McpCell) : McpCell :=
  ((s.bumpGeneration name).updateOAuth name (withoutTokens now) fun _ => rfl).endGrant name

def clearClient (now : ℕ) (name : Text) (s : McpCell) : McpCell :=
  let cleared := s.updateOAuth name
    (fun row => { row with
      clientMode := none, clientId := none, clientSecret := none, clientIssuer := none
      clientInfo := none, updatedAt := now })
    fun _ => rfl
  cleared.clearTokens now name

/-- What `writeTokens` sets: a new grant replaces both tokens, a refresh keeps the refresh token that
    the response leaves out. -/
def withTokens (now : ℕ) (tokens : SealedTokens) (origin : ℕ) (create : Bool) (row : OAuthRow) :
    OAuthRow :=
  let refresh := match tokens.refresh with
    | some refresh => some ⟨refresh, origin⟩
    | none => if create then none else row.refresh
  { row with
    access := some ⟨tokens.access, origin⟩, refresh := refresh, tokenType := some tokens.tokenType
    scope := tokens.scope, expiresAt := tokens.expiresAt
    tokenIssuer := tokens.issuer.or row.tokenIssuer, refreshedAt := some now, updatedAt := now }

def writeTokens (now : ℕ) (name : Text) (tokens : SealedTokens) (origin : ℕ) (create : Bool)
    (s : McpCell) : McpCell :=
  let s := if create then (s.bumpGeneration name).ensureRow now name else s
  s.updateOAuth name (withTokens now tokens origin create) fun _ => rfl

/-- The commit of `sealGrant`: its tokens are a grant of their own. -/
def commitGrant (now : ℕ) (name : Text) (tokens : SealedTokens) (savedClient : Option SealedClient)
    (s : McpCell) : McpCell :=
  let s := match savedClient with
    | some client => s.writeClient now name (s.storedMode name) client
    | none => s
  { s.writeTokens now name tokens s.grants true with
    grants := s.grants + 1
    committed := Function.update s.committed name (s.committed name + 1)
    live := Function.update s.live name (some s.grants) }

def saveChallenge (now : ℕ) (name : Text) (challenge : Option Text) (s : McpCell) : McpCell :=
  let value := (truthy challenge).map fun text => (foldLines false text).take mcpChallengeMaxLength
  (s.ensureRow now name).updateOAuth name
    (fun row => { row with challenge := value, updatedAt := now }) fun _ => rfl

def discovery (s : McpCell) (name : Text) : Option OAuthDiscoveryState :=
  (s.oauthRow name).bind OAuthRow.discovery

def saveDiscovery (now : ℕ) (name : Text) (discovery : OAuthDiscoveryState) (s : McpCell) : McpCell :=
  (s.ensureRow now name).updateOAuth name
    (fun row => { row with discovery := some discovery, updatedAt := now }) fun _ => rfl

/-- The `DELETE` of `createPending`: attempts that expired, or ended a day ago. -/
def prunePending (now : ℕ) (s : McpCell) : McpCell :=
  { s with
    pending := s.pending.filter fun row =>
      !(decide (row.expiresAt < now) ||
        row.completedAt.any fun completed => decide (completed + 86400000 < now)) }

/-- The attempt is marked as used in the step that reads it. -/
def claimPending (now : ℕ) (state : Text) (s : McpCell) : McpCell :=
  { s with
    pending := s.pending.map
      (fun row => if row.state = state then
          { row with completedAt := some (row.completedAt.getD now) }
        else row)
      fun row => by split <;> rfl }

/-- `clear`: the rows of the name go, and with them its refresh in flight. -/
def clear (name : Text) (s : McpCell) : McpCell :=
  ({ s.bumpGeneration name with
    inFlight := Function.update s.inFlight name none
    oauth := s.oauth.filter fun row => decide (row.serverName ≠ name)
    pending := s.pending.filter fun row => decide (row.serverName ≠ name) }).endGrant name

/-- An operation that started from `basis` writes to the grant of the name. -/
def act (kind : ActKind) (name : Text) (basis : Basis) (s : McpCell) : McpCell :=
  { s with acts := ⟨kind, name, basis.origin, s.live name⟩ :: s.acts }

/-- A sign-in begun for the server `id` wrote to the OAuth row of the name. -/
def wroteOAuth (name id : Text) (s : McpCell) : McpCell :=
  s.updateOAuth name (fun row => { row with writers := id :: row.writers }) fun _ => rfl

/-! ### The server rows (`store.ts`) -/

def row (s : McpCell) (name : Text) : Option ServerRow := s.servers.find? name

def require (s : McpCell) (name : Text) : Except Thrown ServerRow :=
  match s.row name with
  | some row => .ok row
  | none => .error (.kody "mcp_server_not_found"
      ("MCP server \"" ++ name ++ "\" was not found. Add it with mcpServerAdd.") 404)

def record (s : McpCell) (row : ServerRow) : McpServerRecord :=
  toRecord row ((s.oauthRow row.name).map summary)

def get (s : McpCell) (name : Text) : Option McpServerRecord := (s.row name).map s.record

/-- `this.record(this.require(name))` -/
def requireRecord (s : McpCell) (name : Text) : Except Thrown McpServerRecord :=
  (s.require name).map s.record

/-- `UPDATE mcp_servers SET … WHERE name = ?` -/
def updateServer (name : Text) (change : ServerRow → ServerRow)
    (hname : ∀ row, (change row).name = row.name) (s : McpCell) : McpCell :=
  { s with
    servers := s.servers.map (fun row => if row.name = name then change row else row)
      fun row => by
        split
        · exact hname row
        · rfl }

/-- A sign-in begun for the server `id` wrote to the row of the name. -/
def wroteServer (name id : Text) (s : McpCell) : McpCell :=
  s.updateServer name (fun row => { row with writers := id :: row.writers }) fun _ => rfl

/-- `save` up to the seal of the bearer: whether the OAuth row of the name is cleared. -/
def saveClears (existing : Option ServerRow) (input : SaveInput) : Bool :=
  existing.isNone || existing.any (fun row => decide (row.url ≠ input.url)) ||
    (truthy input.authorization).isSome

/-- The bearer and the kind that `save` writes. -/
def saveAuth (p : Platform) (existing : Option ServerRow) (input : SaveInput) :
    Option Text × AuthKind :=
  match truthy input.authorization with
  | some authorization => (some authorization, .bearer)
  | none =>
    match existing with
    | none => (none, .none)
    | some existing =>
      if existing.bearer.isSome && sameOrigin p existing.url input.url then
        (existing.bearer, .bearer)
      else if existing.url = input.url ∧ existing.auth = .oauth then (none, .oauth)
      else (none, .none)

/-- The `INSERT … ON CONFLICT(name) DO UPDATE` of `save`; `fresh` is the id drawn for a server that
    the call did not find. -/
def saveRow (p : Platform) (now : ℕ) (fresh : Text) (existing : Option ServerRow) (input : SaveInput)
    (s : McpCell) : McpCell :=
  let (bearer, kind) := saveAuth p existing input
  let id := (existing.map ServerRow.id).getD fresh
  let lastError := some ⟨"connect", "Not discovered yet.", now⟩
  { s with
    servers := s.servers.upsert
      ⟨id, input.name, input.url, input.enabled, input.usage, kind, bearer, .error, lastError, none,
        "[]", none, (existing.map ServerRow.createdAt).getD now, now, []⟩
      (fun row => { row with
        url := input.url, enabled := input.enabled, usage := input.usage, auth := kind
        bearer := bearer, status := .error, lastError := lastError, serverInfo := none, tools := "[]"
        toolsRefreshedAt := none, updatedAt := now })
      fun _ => rfl
    issued := id :: s.issued }

/-- Whether an outcome of kind `auth` is written: never on a bearer, nor on another origin. -/
def authApplies (p : Platform) (row : ServerRow) (origin : Option Text) : Bool :=
  row.bearer.isNone && (truthy origin).all fun origin => sameOrigin p row.url origin

def setDiscovery (p : Platform) (now : ℕ) (name : Text) (outcome : McpDiscoveryOutcome)
    (s : McpCell) : Except Thrown McpServerRecord × McpCell :=
  match s.require name with
  | .error e => (.error e, s)
  | .ok row =>
    match outcome with
    | .auth status error origin challenge =>
      if !authApplies p row origin then (.ok (s.record row), s)
      else
        let s := s.updateServer name
          (fun row => { row with
            status := status, auth := .oauth, lastError := some error, updatedAt := now })
          fun _ => rfl
        let s := match challenge with
          | some challenge => s.saveChallenge now name challenge
          | none => s
        (s.requireRecord name, s)
    | .error error =>
      let s := s.updateServer name
        (fun row => { row with status := .error, lastError := some error, updatedAt := now })
        fun _ => rfl
      (s.requireRecord name, s)
    | .ready serverInfo tools =>
      let s := s.updateServer name
        (fun row => { row with
          status := .ready, lastError := none, serverInfo := some serverInfo, tools := tools
          toolsRefreshedAt := some now, updatedAt := now })
        fun _ => rfl
      (s.requireRecord name, s)

/-- After a code exchange: the oauth kind, and no bearer. -/
def markOAuth (now : ℕ) (name : Text) (s : McpCell) : McpCell :=
  s.updateServer name
    (fun row => { row with auth := .oauth, bearer := none, updatedAt := now }) fun _ => rfl

def setEnabled (now : ℕ) (name : Text) (enabled : Bool) (s : McpCell) :
    Except Thrown McpServerRecord × McpCell :=
  match s.require name with
  | .error e => (.error e, s)
  | .ok _ =>
    let s := s.updateServer name (fun row => { row with enabled := enabled, updatedAt := now })
      fun _ => rfl
    (s.requireRecord name, s)

def setUsage (now : ℕ) (name : Text) (usage : IntegrationUsage) (s : McpCell) :
    Except Thrown McpServerRecord × McpCell :=
  match s.require name with
  | .error e => (.error e, s)
  | .ok _ =>
    let s := s.updateServer name (fun row => { row with usage := usage, updatedAt := now })
      fun _ => rfl
    (s.requireRecord name, s)

def remove (name : Text) (s : McpCell) : Bool × McpCell :=
  let gone := (s.row name).toList.map ServerRow.id
  let cleared := s.clear name
  ((s.row name).isSome,
    { cleared with
      servers := cleared.servers.filter fun row => decide (row.name ≠ name)
      removed := gone ++ cleared.removed })

/-! ### The rows of a name after an update -/

section
variable {s : McpCell} {name : Text}

theorem oauthRow_updateOAuth {change : OAuthRow → OAuthRow}
    (hname : ∀ row, (change row).serverName = row.serverName) (n : Text) :
    (s.updateOAuth name change hname).oauthRow n =
      if n = name then (s.oauthRow n).map change else s.oauthRow n := by
  refine Rows.find?_mapAt s.oauth name change ?_ n
  intro row
  split
  · exact hname row
  · rfl

theorem oauthRow_ensureRow (now : ℕ) (n : Text) :
    (s.ensureRow now name).oauthRow n =
      if n = name then some ((s.oauthRow n).getD (emptyRow now name)) else s.oauthRow n := by
  have hrow := Rows.find?_upsert s.oauth (emptyRow now name) id (fun _ => rfl) n
  show (s.oauth.upsert (emptyRow now name) id fun _ => rfl).find? n = _
  rw [hrow]
  by_cases hn : n = name
  · rw [if_pos hn, if_pos (show (emptyRow now name).serverName = n from hn.symm)]
    unfold oauthRow
    cases s.oauth.find? n with
    | none => rfl
    | some row => rfl
  · rw [if_neg hn, if_neg (show (emptyRow now name).serverName ≠ n from Ne.symm hn)]
    rfl

theorem oauthRow_clearTokens (now : ℕ) (n : Text) :
    (s.clearTokens now name).oauthRow n =
      if n = name then (s.oauthRow n).map (withoutTokens now) else s.oauthRow n := by
  have hname : ∀ row, (withoutTokens now row).serverName = row.serverName := fun _ => rfl
  exact oauthRow_updateOAuth hname n

theorem oauthRow_clear (n : Text) :
    (s.clear name).oauthRow n = if n = name then none else s.oauthRow n := by
  show (s.oauth.filter fun row => decide (row.serverName ≠ name)).find? n = _
  rw [Rows.find?_filter]
  unfold oauthRow
  cases hfind : s.oauth.find? n with
  | none => rw [ite_self]; rfl
  | some row =>
    have hrow : row.serverName = n := (Rows.find?_eq_some.mp hfind).2
    by_cases hn : n = name
    · rw [if_pos hn, Option.filter_some, if_neg (by simp [hrow, hn])]
    · rw [if_neg hn, Option.filter_some, if_pos (by simp [hrow, hn])]

/-- The row of a name after a new grant was written. -/
theorem oauthRow_writeTokens_new (now : ℕ) (tokens : SealedTokens) (origin : ℕ) (n : Text) :
    (s.writeTokens now name tokens origin true).oauthRow n =
      if n = name then
        some (withTokens now tokens origin true ((s.oauthRow n).getD (emptyRow now name)))
      else s.oauthRow n := by
  have hname : ∀ row, (withTokens now tokens origin true row).serverName = row.serverName :=
    fun _ => rfl
  refine (oauthRow_updateOAuth hname n).trans ?_
  rw [if_pos rfl, oauthRow_ensureRow]
  split
  · rfl
  · rfl

/-- The row of a name after a refresh was written. -/
theorem oauthRow_writeTokens_refreshed (now : ℕ) (tokens : SealedTokens) (origin : ℕ) (n : Text) :
    (s.writeTokens now name tokens origin false).oauthRow n =
      if n = name then (s.oauthRow n).map (withTokens now tokens origin false)
      else s.oauthRow n := by
  have hname : ∀ row, (withTokens now tokens origin false row).serverName = row.serverName :=
    fun _ => rfl
  exact oauthRow_updateOAuth hname n

theorem row_updateServer {change : ServerRow → ServerRow}
    (hname : ∀ row, (change row).name = row.name) (n : Text) :
    (s.updateServer name change hname).row n =
      if n = name then (s.row n).map change else s.row n := by
  refine Rows.find?_mapAt s.servers name change ?_ n
  intro row
  split
  · exact hname row
  · rfl

end

end McpCell

end KodyCelld.Mcp
