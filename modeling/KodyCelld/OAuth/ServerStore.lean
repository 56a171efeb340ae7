import KodyCelld.Lib.Js
import KodyCelld.Lib.Rows

namespace KodyCelld.OAuth

open KodyCelld.Lib

/-!
# The authorization server's store (`oauth/server-store.ts`)

The tables of `OAuthServerStore` and its operations.  Each operation is cut at its `await`s into
the pieces that run without interruption; the operation itself is these pieces run one after the
other.  Stamps are kept as instants: for years before 10000 their texts compare like them.

The platform supplies hashing, sealing and random values (`Platform`, `TokenDraw`).
-/

/-! ### Constants (`oauth/protocol.ts`) -/

def codeTtlMs : ℕ := 10 * 60 * 1000

def accessTokenTtlSeconds : ℕ := 60 * 60

def refreshTokenTtlMs : ℕ := 30 * 24 * 60 * 60 * 1000

/-- A refresh token rotated out this recently replays its answer. -/
def refreshReplayGraceMs : ℕ := 60 * 1000

def unusedClientTtlMs : ℕ := 30 * 24 * 60 * 60 * 1000

/-! ### Rows and answers -/

inductive TokenEndpointAuthMethod where
  | none | basic | post
  deriving DecidableEq, Repr

structure ClientRegistration where
  clientName : Text
  redirectUris : List Text
  tokenEndpointAuthMethod : TokenEndpointAuthMethod
  grantTypes : List Text
  clientUri : Option Text
  logoUri : Option Text
  softwareId : Option Text
  softwareVersion : Option Text
  deriving DecidableEq, Repr

structure ClientRow where
  clientId : Text
  clientSecretHash : Option Text
  registration : ClientRegistration
  createdAt : ℕ
  lastUsedAt : Option ℕ
  deriving DecidableEq, Repr

structure CodeRow where
  codeHash : Text
  clientId : Text
  userId : Text
  redirectUri : Text
  codeChallenge : Text
  scope : Text
  resource : Text
  createdAt : ℕ
  expiresAt : ℕ
  deriving DecidableEq, Repr

structure GrantRow where
  id : Text
  userId : Text
  clientId : Text
  scope : Text
  createdAt : ℕ
  lastUsedAt : Option ℕ
  deriving DecidableEq, Repr

inductive TokenKind where
  | access | refresh
  deriving DecidableEq, Repr

structure TokenRow where
  tokenHash : Text
  kind : TokenKind
  grantId : Text
  familyId : Text
  createdAt : ℕ
  expiresAt : ℕ
  replacedAt : Option ℕ
  replayJson : Option Text
  deriving DecidableEq, Repr

/-- `token_type` is always `Bearer`, `expires_in` always `accessTokenTtlSeconds`. -/
structure TokenResponse where
  accessToken : Text
  refreshToken : Text
  scope : Text
  deriving DecidableEq, Repr

structure ResolvedAccessToken where
  userId : Text
  grantId : Text
  clientId : Text
  clientName : Text
  scope : Text
  expiresAt : ℕ
  deriving DecidableEq, Repr

/-- What an operation throws. -/
inductive OAuthError where
  | protocol (code description : Text) (status : ℕ := 400)
  | kody (code message : Text) (status : ℕ)
  | sqlite (message : Text)
  deriving DecidableEq, Repr

structure OAuthStore where
  clients : Rows ClientRow.clientId
  codes : Rows CodeRow.codeHash
  grants : Rows GrantRow.id
  tokens : Rows TokenRow.tokenHash

/-- What the store takes from the platform: SHA-256, taken to be injective, the S256 challenge of a
    verifier, and a keyring that opens the snapshots it sealed. -/
structure Platform where
  sha256Hex : Text → Text
  sha256Hex_injective : Function.Injective sha256Hex
  pkceChallenge : Text → Text
  /-- Sealing under a fresh initialisation vector. -/
  sealReplay : Text → TokenResponse → Text
  /-- `none` where the snapshot does not open. -/
  openReplay : Text → Option TokenResponse
  open_seal : ∀ iv response, openReplay (sealReplay iv response) = some response

/-- The random values of one minting: the two tokens and the vector of the snapshot. -/
structure TokenDraw where
  access : Text
  refresh : Text
  iv : Text
  deriving DecidableEq, Repr

namespace OAuthStore

variable (p : Platform)

/-! ### Cleaning up -/

/-- Whether `purge` leaves a token. -/
def keepsToken (now : ℕ) (row : TokenRow) : Bool := decide (now < row.expiresAt)

/-- A snapshot is only useful for a minute. -/
def clearStaleReplay (now : ℕ) (row : TokenRow) : TokenRow :=
  match row.replacedAt with
  | some replacedAt =>
    if replacedAt + refreshReplayGraceMs ≤ now then { row with replayJson := none } else row
  | none => row

theorem clearStaleReplay_hash (now : ℕ) (row : TokenRow) :
    (clearStaleReplay now row).tokenHash = row.tokenHash := by
  unfold clearStaleReplay
  split
  · split <;> rfl
  · rfl

/-- Whether `purge` leaves a client: it was used, is recent, or has a grant. -/
def keepsClient (now : ℕ) (grants : List GrantRow) (client : ClientRow) : Bool :=
  client.lastUsedAt.isSome || decide (now < client.createdAt + unusedClientTtlMs) ||
    grants.any fun g => g.clientId = client.clientId

def purge (now : ℕ) (s : OAuthStore) : OAuthStore :=
  { clients := s.clients.filter (keepsClient now s.grants.rows)
    codes := s.codes.filter fun c => decide (now < c.expiresAt)
    grants := s.grants
    tokens := (s.tokens.filter (keepsToken now)).map (clearStaleReplay now)
      (clearStaleReplay_hash now) }

/-! ### Clients -/

/-- The `INSERT` of `clientRegister`; the id and the secret are random. -/
def insertClient (now : ℕ) (clientId : Text) (clientSecret : Option Text)
    (registration : ClientRegistration) (s : OAuthStore) : Except OAuthError ClientRow × OAuthStore :=
  let row : ClientRow :=
    { clientId := clientId
      clientSecretHash := if registration.tokenEndpointAuthMethod = .none then none
        else clientSecret.map p.sha256Hex
      registration := registration, createdAt := now, lastUsedAt := none }
  match s.clients.insert? row with
  | some clients => (.ok row, { s with clients := clients })
  | none => (.error (.sqlite "UNIQUE constraint failed: oauth_clients.client_id"), s)

def clientRegister (now : ℕ) (clientId : Text) (clientSecret : Option Text)
    (registration : ClientRegistration) (s : OAuthStore) : Except OAuthError ClientRow × OAuthStore :=
  insertClient p now clientId clientSecret registration (purge now s)

def touchClient (now : ℕ) (clientId : Text) (s : OAuthStore) : OAuthStore :=
  { s with
    clients := s.clients.map
      (fun c => if c.clientId = clientId then { c with lastUsedAt := some now } else c)
      (fun c => by split <;> rfl) }

structure ClientCredentials where
  clientId : Option Text
  clientSecret : Option Text
  method : TokenEndpointAuthMethod
  deriving DecidableEq, Repr

/-- `!text`: absent or empty. -/
def isBlank : Option Text → Bool
  | none => true
  | some t => t.isEmpty

def authMethodText : TokenEndpointAuthMethod → Text
  | .none => "none"
  | .basic => "client_secret_basic"
  | .post => "client_secret_post"

/-- Token and revoke endpoint client authentication, on the row read before the secret is hashed. -/
def clientAuthenticate (credentials : ClientCredentials) (s : OAuthStore) :
    Except OAuthError ClientRow :=
  if isBlank credentials.clientId then
    .error (.protocol "invalid_client" "client_id is required." 401)
  else match s.clients.find? (credentials.clientId.getD []) with
    | none => .error (.protocol "invalid_client" "Unknown client." 401)
    | some row =>
      match row.clientSecretHash with
      | some hash =>
        if isBlank credentials.clientSecret then
          .error (.protocol "invalid_client"
            "This client must authenticate with its client_secret." 401)
        else if credentials.method ≠ row.registration.tokenEndpointAuthMethod then
          .error (.protocol "invalid_client" ("This client registered token_endpoint_auth_method=" ++
            authMethodText row.registration.tokenEndpointAuthMethod ++ ".") 401)
        else if p.sha256Hex (credentials.clientSecret.getD []) ≠ hash then
          .error (.protocol "invalid_client" "Client authentication failed." 401)
        else .ok row
      | none =>
        if isBlank credentials.clientSecret then .ok row
        else .error (.protocol "invalid_client"
          "This is a public client; do not send a client_secret." 401)

/-! ### Codes -/

structure CodeInput where
  clientId : Text
  userId : Text
  redirectUri : Text
  codeChallenge : Text
  scope : Text
  resource : Text
  deriving DecidableEq, Repr

def codeRow (now : ℕ) (code : Text) (input : CodeInput) : CodeRow where
  codeHash := p.sha256Hex code
  clientId := input.clientId
  userId := input.userId
  redirectUri := input.redirectUri
  codeChallenge := input.codeChallenge
  scope := input.scope
  resource := input.resource
  createdAt := now
  expiresAt := now + codeTtlMs

/-- The `INSERT` of `codeIssue`; `now` was read before the code was hashed. -/
def insertCode (now : ℕ) (code : Text) (input : CodeInput) (s : OAuthStore) :
    Except OAuthError Text × OAuthStore :=
  match s.codes.insert? (codeRow p now code input) with
  | some codes => (.ok code, { s with codes := codes })
  | none => (.error (.sqlite "UNIQUE constraint failed: oauth_codes.code_hash"), s)

/-- `codeConsume` after the hash: the row is deleted whether or not it is still valid. -/
def takeCode (now : ℕ) (hash : Text) (s : OAuthStore) : Option CodeRow × OAuthStore :=
  match s.codes.find? hash with
  | none => (none, s)
  | some row =>
    let s := { s with codes := s.codes.filter fun c => decide (c.codeHash ≠ hash) }
    if row.expiresAt ≤ now then (none, s) else (some row, s)

/-! ### Grants -/

/-- `text.split(' ')` without empty pieces. -/
def scopeWords (scope : Text) : List Text := (scope.splitOn ' ').filter fun w => !w.isEmpty

/-- The scopes of both texts, each once. -/
def widenScope (held added : Text) : Text :=
  [' '].intercalate ((scopeWords held ++ scopeWords added).eraseDups)

/-- Idempotent per user and client; `newId` is drawn for a new grant. -/
def grantEnsure (now : ℕ) (newId userId clientId scope : Text) (s : OAuthStore) :
    Except OAuthError Text × OAuthStore :=
  match s.grants.rows.find? fun g => g.userId = userId ∧ g.clientId = clientId with
  | some held =>
    (.ok held.id, { s with
      grants := s.grants.map
        (fun g => if g.id = held.id then
          { g with scope := widenScope held.scope scope, lastUsedAt := some now } else g)
        (fun g => by split <;> rfl) })
  | none =>
    match s.grants.insert? { id := newId, userId := userId, clientId := clientId, scope := scope
                             createdAt := now, lastUsedAt := some now } with
    | some grants => (.ok newId, { s with grants := grants })
    | none => (.error (.sqlite "UNIQUE constraint failed: oauth_grants.id"), s)

/-- Revokes a grant of the user and every token under it. -/
def grantRevoke (userId grantId : Text) (s : OAuthStore) : Except OAuthError Unit × OAuthStore :=
  match s.grants.rows.find? fun g => g.id = grantId ∧ g.userId = userId with
  | none => (.error (.kody "oauth_grant_not_found" ("No MCP client grant " ++ grantId ++ ".") 404), s)
  | some _ =>
    (.ok (), { s with
      tokens := s.tokens.filter fun t => decide (t.grantId ≠ grantId)
      grants := s.grants.filter fun g => decide (g.id ≠ grantId) })

/-! ### Tokens -/

def familyRevoke (familyId : Text) (s : OAuthStore) : OAuthStore :=
  { s with tokens := s.tokens.filter fun t => decide (t.familyId ≠ familyId) }

def tokenTtlMs : TokenKind → ℕ
  | .access => accessTokenTtlSeconds * 1000
  | .refresh => refreshTokenTtlMs

/-- One `INSERT` of `mintPair`. -/
def insertToken (now : ℕ) (kind : TokenKind) (token grantId familyId : Text) (s : OAuthStore) :
    Except OAuthError Unit × OAuthStore :=
  match s.tokens.insert? { tokenHash := p.sha256Hex token, kind := kind, grantId := grantId
                           familyId := familyId, createdAt := now, expiresAt := now + tokenTtlMs kind
                           replacedAt := none, replayJson := none } with
  | some tokens => (.ok (), { s with tokens := tokens })
  | none => (.error (.sqlite "UNIQUE constraint failed: oauth_tokens.token_hash"), s)

/-- `UPDATE oauth_grants SET last_used_at = ? WHERE id = ?` -/
def touchGrant (now : ℕ) (grantId : Text) (s : OAuthStore) : OAuthStore :=
  { s with
    grants := s.grants.map (fun g => if g.id = grantId then { g with lastUsedAt := some now } else g)
      (fun g => by split <;> rfl) }

def TokenDraw.response (draw : TokenDraw) (scope : Text) : TokenResponse :=
  { accessToken := draw.access, refreshToken := draw.refresh, scope := scope }

def mintPair (now : ℕ) (draw : TokenDraw) (grantId familyId scope : Text) (s : OAuthStore) :
    Except OAuthError TokenResponse × OAuthStore :=
  match insertToken p now .access draw.access grantId familyId s with
  | (.error e, s) => (.error e, s)
  | (.ok (), s) =>
    match insertToken p now .refresh draw.refresh grantId familyId s with
    | (.error e, s) => (.error e, s)
    | (.ok (), s) => (.ok (TokenDraw.response draw scope), touchGrant now grantId s)

/-- Code exchange: a fresh family under the grant. -/
def tokensIssue (now : ℕ) (familyId : Text) (draw : TokenDraw) (grantId clientId scope : Text)
    (s : OAuthStore) : Except OAuthError TokenResponse × OAuthStore :=
  mintPair p now draw grantId familyId scope (touchClient now clientId (purge now s))

/-- What `tokensRefresh` finds under the presented token. -/
inductive RefreshLookup where
  | refused (e : OAuthError)
  | replay (familyId json : Text)
  | rotate (row : TokenRow) (scope : Text)
  deriving DecidableEq, Repr

def unknownRefresh : OAuthError :=
  .protocol "invalid_grant" "Unknown or revoked refresh_token."

def expiredRefresh : OAuthError :=
  .protocol "invalid_grant" "refresh_token has expired; authorize again."

def reusedRefresh : OAuthError :=
  .protocol "invalid_grant" "refresh_token was already used; the session has been revoked."

/-- Drops the family's access tokens and its older snapshots. -/
def retireFamily (familyId : Text) (s : OAuthStore) : OAuthStore :=
  { s with
    tokens := (s.tokens.filter fun t =>
        !(decide (t.familyId = familyId) && decide (t.kind = .access))).map
      (fun t => if t.familyId = familyId then { t with replayJson := none } else t)
      (fun t => by split <;> rfl) }

/-- `tokensRefresh` from the hash to its next `await`: the joined `SELECT`, the checks, and for a
    live token the retirement of the family's access tokens and older snapshots. -/
def refreshLookup (now : ℕ) (hash clientId : Text) (s : OAuthStore) : RefreshLookup × OAuthStore :=
  match s.tokens.find? hash with
  | none => (.refused unknownRefresh, s)
  | some row =>
    match s.grants.find? row.grantId with
    | none => (.refused unknownRefresh, s)
    | some grant =>
      if row.kind ≠ .refresh ∨ grant.clientId ≠ clientId then (.refused unknownRefresh, s)
      else if row.expiresAt ≤ now then (.refused expiredRefresh, familyRevoke row.familyId s)
      else match row.replacedAt with
        | some replacedAt =>
          -- a stored snapshot is never the empty text
          match row.replayJson with
          | some json =>
            if now ≤ replacedAt + refreshReplayGraceMs then (.replay row.familyId json, s)
            else (.refused reusedRefresh, familyRevoke row.familyId s)
          | none => (.refused reusedRefresh, familyRevoke row.familyId s)
        | none =>
          (.rotate row grant.scope, retireFamily row.familyId s)

/-- The final `UPDATE`s of a rotation; `now` was read before the new pair was minted. -/
def markReplaced (now : ℕ) (hash sealed : Text) (s : OAuthStore) : OAuthStore :=
  { s with
    tokens := s.tokens.map
      (fun t => if t.tokenHash = hash then
        { t with replacedAt := some now, replayJson := some sealed } else t)
      (fun t => by split <;> rfl) }

/-- Refresh-token rotation with reuse detection. -/
def tokensRefresh (now : ℕ) (draw : TokenDraw) (refreshToken clientId : Text) (s : OAuthStore) :
    Except OAuthError TokenResponse × OAuthStore :=
  let hash := p.sha256Hex refreshToken
  match refreshLookup now hash clientId (purge now s) with
  | (.refused e, s) => (.error e, s)
  | (.replay familyId json, s) =>
    match p.openReplay json with
    | some response => (.ok response, s)
    | none => (.error reusedRefresh, familyRevoke familyId s)
  | (.rotate row scope, s) =>
    match mintPair p now draw row.grantId row.familyId scope s with
    | (.error e, s) => (.error e, s)
    | (.ok fresh, s) =>
      (.ok fresh, touchClient now clientId (markReplaced now hash (p.sealReplay draw.iv fresh) s))

/-- The row an access token names, joined with its grant and client. -/
def accessTokenResolve (now : ℕ) (token : Text) (s : OAuthStore) : Option ResolvedAccessToken := do
  let row ← s.tokens.find? (p.sha256Hex token)
  let grant ← s.grants.find? row.grantId
  let client ← s.clients.find? grant.clientId
  if row.kind = .access ∧ now < row.expiresAt then
    some { userId := grant.userId, grantId := row.grantId, clientId := grant.clientId
           clientName := client.registration.clientName, scope := grant.scope
           expiresAt := row.expiresAt }
  else none

/-- The joined row `tokenRevoke` reads, when it is of the client. -/
def revocable (hash clientId : Text) (s : OAuthStore) : Option TokenRow :=
  match s.tokens.find? hash with
  | none => none
  | some row =>
    match s.grants.find? row.grantId with
    | none => none
    | some grant => if grant.clientId = clientId then some row else none

/-- `DELETE FROM oauth_tokens WHERE token_hash = ?` -/
def deleteToken (hash : Text) (s : OAuthStore) : OAuthStore :=
  { s with tokens := s.tokens.filter fun t => decide (t.tokenHash ≠ hash) }

/-- Revoking a refresh token ends its family; an access token only itself. -/
def tokenRevoke (token clientId : Text) (s : OAuthStore) : Bool × OAuthStore :=
  match revocable (p.sha256Hex token) clientId s with
  | none => (false, s)
  | some row =>
    if row.kind = .refresh then (true, familyRevoke row.familyId s)
    else (true, deleteToken (p.sha256Hex token) s)

end OAuthStore

end KodyCelld.OAuth
