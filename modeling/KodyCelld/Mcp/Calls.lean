import KodyCelld.Lib.Machine
import KodyCelld.Mcp.Store

namespace KodyCelld.Mcp

open KodyCelld.Lib
open KodyCelld.Integrations (IntegrationUsage Held isTokenExpired)

/-!
# The calls on MCP servers (`mcp-client/*.ts`, `cells/user-cell.ts`)

The calls of one user on the cell that holds the MCP servers, with the two that span several of them
and the network: `startMcpOAuth` and `finishMcpOAuth`.  Every call is cut at its `await`s: a `Frame` is
where it stands, and `piece` runs it to its next `await` or to its return.  What the network, the
random source and the key store answer is the `Input` of a piece.

* `openedTokens`, `openedClient`, `refreshFailed`, `sealedRefresh` — `accessToken` and its refresh;
* `answer` — what `callAuthorization` does with the result;
* `beginOAuth`, `saveBegun`, `claimedRecord`, `completeOAuth` — a sign-in;
* `mcp` — the system of calls.
-/

/-! ### Calls and frames -/

structure AccessOptions where
  forceRefresh : Bool
  staleAccessToken : Option Text
  deriving DecidableEq, Repr

/-- What the callback of a sign-in carries. -/
structure CallbackInput where
  state : Text
  code : Option Text
  error : Option Text
  errorDescription : Option Text
  iss : Option Text
  deriving DecidableEq, Repr

inductive Call where
  | save (input : SaveInput)
  | remove (name : Text)
  | setDiscovery (name : Text) (outcome : McpDiscoveryOutcome)
  | setEnabled (name : Text) (enabled : Bool)
  | setUsage (name : Text) (usage : IntegrationUsage)
  | callAuthorization (name : Text) (options : AccessOptions)
  | setClient (name clientId : Text) (clientSecret : Option Text)
  | clearClient (name : Text)
  | startOAuth (name : Text)
  | finishOAuth (input : CallbackInput)
  deriving DecidableEq, Repr

/-- A refresh in flight: `startedAt` is the generation that `refreshNow` found. -/
structure Refresh where
  name : Text
  task : ℕ
  tokens : McpOAuthTokenSet
  refreshToken : Held
  startedAt : ℕ
  basis : Basis
  deriving DecidableEq, Repr

/-- What the SDK hands back once an authorization was begun. -/
structure Begun where
  authorizationUrl : Text
  state : Text
  verifier : Text
  mode : McpOAuthClientMode
  savedClient : Option ClientInformation
  discovery : Option OAuthDiscoveryState
  deriving DecidableEq, Repr

/-- The input of `mcpServerOAuthBegin`. -/
structure Beginning where
  record : McpServerRecord
  serverOrigin : Text
  clientId : Option Text
  begun : Begun
  deriving DecidableEq, Repr

/-- A callback whose attempt was claimed. -/
structure Claimed where
  pending : PendingRow
  expired : Bool
  client : Option McpOAuthClient
  discovery : Option OAuthDiscoveryState
  input : CallbackInput
  deriving DecidableEq, Repr

/-- Where a call stands. -/
inductive Frame where
  | start (call : Call)
  | sealingBearer (input : SaveInput) (existing : Option ServerRow)
  | opening (name : Text) (options : AccessOptions) (row : Option OAuthRow) (basis : Basis)
  | openingClient (r : Refresh) (row : Option OAuthRow)
  | refreshing (r : Refresh) (client : McpOAuthClient)
  | sealing (r : Refresh) (next : OAuthTokens)
  | settling (name : Text) (task : ℕ) (result : Except Thrown McpAccessResult) (basis : Basis)
  | waiting (name : Text) (task : ℕ)
  | answered (name : Text) (result : Except Thrown McpAccessResult) (basis : Basis)
  | openingBearer (bearer : Text)
  | sealingClient (name : Text) (information : ClientInformation)
  | loading (record : McpServerRecord)
  | openingLoaded (record : McpServerRecord) (row : Option OAuthRow)
  | probing (record : McpServerRecord) (client : Option McpOAuthClient)
  | sealingBegun (b : Beginning) (information : ClientInformation)
  | savedClient (b : Beginning)
  | sealingVerifier (b : Beginning) (startedAt : ℕ)
  | openingVerifier (pending : PendingRow) (firstClaim : Bool) (input : CallbackInput)
  | openingClaimed (c : Claimed) (firstClaim : Bool) (row : Option OAuthRow)
  | claimed (c : Claimed)
  | exchanging (c : Claimed) (record : McpServerRecord) (code : Text)
  | parking (c : Claimed) (phase message : Text)
  | sealingGrant (c : Claimed) (tokens : OAuthTokens) (savedClient : Option ClientInformation)
  deriving DecidableEq

/-- How a callback ended without a grant. -/
structure FinishResult where
  name : Text
  ok : Bool
  replay : Bool
  message : Option Text
  deriving DecidableEq, Repr

/-- What a call returned.  After a commit the source runs a discovery, which is calls of its own. -/
inductive Ret where
  | record (answer : Except Thrown McpServerRecord)
  | removed (removed : Bool)
  | client (answer : Except Thrown Unit)
  | authorization (answer : Except Thrown (Option Text))
  | started (answer : Except Thrown (Text × McpOAuthClientMode))
  | finished (answer : Except Thrown FinishResult)
  | committed (name : Text)

/-- What the outside supplies to one piece: the clock, a random id, whether an awaited seal or
    decryption was rejected, and what the network answered. -/
structure Input where
  now : ℕ
  draw : Text
  rejected : Option Text
  refreshed : Except RefreshError OAuthTokens
  begun : Except Thrown Begun
  exchanged : Except Thrown (OAuthTokens × Option ClientInformation)

/-! ### Access tokens -/

section
variable (p : Platform)

/-- `accessToken` up to its first `await`. -/
def accessToken (name : Text) (options : AccessOptions) (s : McpCell) : Frame :=
  match s.inFlight name with
  | some task => .waiting name task
  | none =>
    let row := s.oauthRow name
    .opening name options row
      ⟨(row.bind OAuthRow.access).map Held.origin, s.generation name, s.committed name⟩

/-- The tokens can be answered as they are: they differ from the ones the caller says are stale, or
    nothing asks for a refresh. -/
def usable (now : ℕ) (options : AccessOptions) (tokens : McpOAuthTokenSet) : Bool :=
  (truthy options.staleAccessToken).any (fun stale => decide (stale ≠ tokens.accessToken.token)) ||
    (!options.forceRefresh && !isTokenExpired tokens.expiresAt now)

def noRefreshTokenMessage (options : AccessOptions) : Text :=
  if options.forceRefresh then
    "The access token was rejected and there is no refresh token; authorize again."
  else "The access token expired and there is no refresh token; authorize again."

/-- `accessToken` once the tokens are decrypted, and `refreshNow` up to its first `await`. -/
def openedTokens (now : ℕ) (name : Text) (options : AccessOptions) (row : Option OAuthRow)
    (basis : Basis) (s : McpCell) : McpCell × Frame :=
  match tokens row with
  | none =>
    (s, .answered name
      (.ok (.failed .authenticating "No OAuth grant yet; authorize the server.")) basis)
  | some tokens =>
    if usable now options tokens then (s, .answered name (.ok (.ok tokens.accessToken)) basis)
    else
      match tokens.refreshToken.filter fun held => decide (held.token ≠ []) with
      | none =>
        ((s.act .clear name basis).clearTokens now name,
          .answered name (.ok (.failed .authenticating (noRefreshTokenMessage options))) basis)
      | some refreshToken =>
        match s.inFlight name with
        | some task => (s, .waiting name task)
        | none =>
          ({ s with
              inFlight := Function.update s.inFlight name (some s.nextTask)
              nextTask := s.nextTask + 1 },
            .openingClient ⟨name, s.nextTask, tokens, refreshToken, s.generation name, basis⟩
              (s.oauthRow name))

/-- `changed()` -/
def changed (r : Refresh) (s : McpCell) : Bool :=
  decide (s.generation r.name ≠ r.startedAt) || (s.oauthRow r.name).isNone

/-- The task of a refresh ends with a result. -/
def Refresh.settle (r : Refresh) (result : Except Thrown McpAccessResult) : Frame :=
  .settling r.name r.task result r.basis

def changedResult : McpAccessResult :=
  .failed .authenticating "The server was changed while refreshing; authorize again."

/-- A refresh that finds its grant dead clears it. -/
def giveUp (now : ℕ) (r : Refresh) (message : Text) (s : McpCell) : McpCell × Frame :=
  ((s.act .clear r.name r.basis).clearTokens now r.name,
    r.settle (.ok (.failed .authenticating message)))

/-- `refreshNow` once the client is decrypted. -/
def openedClient (now : ℕ) (r : Refresh) (row : Option OAuthRow) (s : McpCell) : McpCell × Frame :=
  if changed r s then (s, r.settle (.ok changedResult))
  else
    match client row with
    | none => giveUp now r "The OAuth client registration is missing; authorize again." s
    | some client =>
      let otherIssuer := match truthy r.tokens.issuer, s.discovery r.name with
        | some issuer, some discovery => decide (issuer ≠ discovery.authorizationServerUrl)
        | _, _ => false
      if otherIssuer then
        giveUp now r "The tokens were issued by a different authorization server; authorize again." s
      else (s, .refreshing r client)

/-- The refresh request failed. -/
def refreshFailed (now : ℕ) (r : Refresh) (client : McpOAuthClient) (error : RefreshError)
    (s : McpCell) : McpCell × Frame :=
  if changed r s then (s, r.settle (.ok changedResult))
  else if isInvalidGrant error then
    giveUp now r "The refresh token was rejected; authorize again." s
  else
    let message := (redactSecrets error.message [some r.tokens.accessToken.token,
      r.tokens.refreshToken.map Held.token, client.information.clientSecret]).take 300
    (s, r.settle (.ok (.failed .error ("Token refresh failed: " ++ message))))

/-- The end of `refreshNow`: checked and written with no `await` in between. -/
def sealedRefresh (now : ℕ) (r : Refresh) (next : OAuthTokens) (s : McpCell) : McpCell × Frame :=
  if changed r s then (s, r.settle (.ok changedResult))
  else
    ((s.act .overwrite r.name r.basis).writeTokens now r.name
        (sealTokens now { next with issuer := next.issuer.or r.tokens.issuer })
        r.refreshToken.origin false,
      r.settle (.ok (.ok ⟨next.accessToken, r.refreshToken.origin⟩)))

/-- `authorization`: the bearer of the row. -/
def authorization (row : ServerRow) : Frame ⊕ Ret :=
  match row.bearer with
  | none => .inr (.authorization (.ok none))
  | some bearer => .inl (.openingBearer bearer)

/-- `callAuthorization` up to its first `await`. -/
def callAuthorization (name : Text) (options : AccessOptions) (s : McpCell) : Frame ⊕ Ret :=
  match s.require name with
  | .error e => .inr (.authorization (.error e))
  | .ok row => if row.auth ≠ .oauth then authorization row else .inl (accessToken name options s)

/-- What `callAuthorization` throws when `accessToken` has no token. -/
def accessError (name : Text) (status : ServerStatus) (message : Text) : Thrown :=
  if status = .error then
    .kody "mcp_call_failed" ("MCP server \"" ++ name ++ "\": " ++ message) 502
  else
    .kody "mcp_server_unauthorized" ("MCP server \"" ++ name ++ "\" needs authorization: " ++
      message ++ " Authorize it on /account/mcp-servers.") 401

/-- `callAuthorization` with the result of `accessToken`. -/
def answer (now : ℕ) (name : Text) (result : Except Thrown McpAccessResult) (basis : Basis)
    (s : McpCell) : McpCell × (Frame ⊕ Ret) :=
  match result with
  | .error e => (s, .inr (.authorization (.error e)))
  | .ok (.ok accessToken) =>
    (s, .inr (.authorization (.ok (some ("Bearer " ++ accessToken.token)))))
  | .ok (.failed status message) =>
    match s.require name with
    | .error e => (s, .inr (.authorization (.error e)))
    | .ok row =>
      if row.auth ≠ .oauth then (s, authorization row)
      else
        -- `setAuthState`, which a bearer in the row stops
        let s := if McpCell.authApplies p row none then s.act .mark name basis else s
        ((s.setDiscovery p now name
            (.auth status ⟨"token exchange", message, now⟩ none none)).2,
          .inr (.authorization (.error (accessError name status message))))

/-! ### Clients and sign-ins -/

/-- `setPreregisteredClient` up to its first `await`. -/
def setPreregisteredClient (now : ℕ) (name clientId : Text) (clientSecret : Option Text)
    (s : McpCell) : McpCell × (Frame ⊕ Ret) :=
  let clientId := trim clientId
  let clientSecret := truthy (clientSecret.map trim)
  let broken (text : Text) : Bool := text.any fun c => c == '\r' || c == '\n'
  if clientId = [] ∨ 512 < utf16Length clientId ∨ broken clientId then
    (s, .inr (.client (.error (.kody "invalid_args"
      "OAuth client id must be 1-512 characters on one line."))))
  else if clientSecret.any fun secret => decide (4096 < utf16Length secret) || broken secret then
    (s, .inr (.client (.error (.kody "invalid_args"
      "OAuth client secret must be at most 4096 characters on one line."))))
  else
    (s.clearClient now name, .inl (.sealingClient name ⟨clientId, clientSecret, none, "\x7b\x7d"⟩))

/-- `mcpServerOAuthBegin` from the discovery on, up to the seal of the verifier. -/
def saveBegun (now : ℕ) (b : Beginning) (s : McpCell) : McpCell × (Frame ⊕ Ret) :=
  let s := match b.begun.discovery with
    | some discovery =>
      (s.saveDiscovery now b.record.name discovery).wroteOAuth b.record.name b.record.id
    | none => s
  (s.prunePending now, .inl (.sealingVerifier b now))

/-- `mcpServerOAuthBegin` up to its first `await`. -/
def beginOAuth (now : ℕ) (b : Beginning) (s : McpCell) : McpCell × (Frame ⊕ Ret) :=
  let name := b.record.name
  match s.row name with
  | none => (s, .inr (.started (.error (.kody "mcp_server_not_found"
      ("MCP server \"" ++ name ++ "\" was not found.") 404))))
  | some server =>
    if server.id ≠ b.record.id then
      (s, .inr (.started (.error (.kody "mcp_oauth_state_invalid" ("MCP server \"" ++ name ++
        "\" was removed or changed while authorizing; start again from /account/mcp-servers.")))))
    else
      match b.begun.savedClient with
      | some information => (s, .inl (.sealingBegun b information))
      | none => saveBegun now b s

/-- `startMcpOAuth` once the authorization was begun at the network. -/
def probed (now : ℕ) (record : McpServerRecord) (client : Option McpOAuthClient) (begun : Begun)
    (s : McpCell) : McpCell × (Frame ⊕ Ret) :=
  match p.origin record.url with
  | none => (s, .inr (.started (.error (.error "Invalid URL"))))
  | some origin =>
    let information := begun.savedClient.or (client.map McpOAuthClient.information)
    beginOAuth now ⟨record, origin, information.map ClientInformation.clientId, begun⟩ s

/-- The row that `createPending` inserts. -/
def Beginning.pending (b : Beginning) (startedAt : ℕ) : PendingRow :=
  ⟨b.begun.state, b.record.name, b.serverOrigin, b.record.url, some b.record.id, b.clientId,
    b.begun.verifier, p.callbackUrl, startedAt, startedAt + mcpOAuthPendingTtlMs, none⟩

/-- The `INSERT` of `createPending`. -/
def createPending (b : Beginning) (startedAt : ℕ) (s : McpCell) : McpCell × (Frame ⊕ Ret) :=
  match s.pending.insert? (b.pending p startedAt) with
  | none => (s, .inr (.started (.error (.error
      "UNIQUE constraint failed: mcp_server_oauth_pending.state"))))
  | some pending =>
    ({ s with pending := pending, begun := ⟨b.record, b.pending p startedAt⟩ :: s.begun },
      .inr (.started (.ok (b.begun.authorizationUrl, b.begun.mode))))

def stateInvalid : Thrown :=
  .kody "mcp_oauth_state_invalid"
    "This authorization link is invalid or expired. Start again from /account/mcp-servers."

def changedMessage (name : Text) : Text :=
  "MCP server \"" ++ name ++
    "\" was removed or changed while authorizing; nothing was saved. Start again from /account/mcp-servers."

def parked (name message : Text) : FinishResult := ⟨name, false, false, some message⟩

/-- `text.replace(/\/$/, '')` -/
def dropSlash (text : Text) : Text :=
  if text.getLast? = some '/' then text.dropLast else text

/-- Why a callback is not exchanged: the provider refused, sent no code, or is not the one expected. -/
def refusal (c : Claimed) : Option Text :=
  match truthy c.input.error, truthy c.input.code, c.discovery with
  | some error, _, _ =>
    let description : Text := match truthy c.input.errorDescription with
      | some description => ": " ++ description
      | none => []
    some ((error ++ description).take 300)
  | none, none, _ => some "The provider returned no authorization code."
  | none, some _, none => none
  | none, some _, some discovery =>
    match truthy c.input.iss with
    | some iss =>
      if dropSlash iss ≠ dropSlash discovery.authorizationServerUrl then
        some "The provider's iss does not match the authorization server."
      else none
    | none =>
      if discovery.issParameterSupported then
        some "The provider omitted the required iss parameter."
      else none

/-- `park`: a server whose record has a grant is not relabelled. -/
def park (c : Claimed) (record : McpServerRecord) (phase message : Text) : Frame ⊕ Ret :=
  if record.oauth.any McpOAuthSummary.hasAccessToken then
    .inr (.finished (.ok (parked record.name message)))
  else .inl (.parking c phase message)

/-- `finishMcpOAuth` with the record of the server. -/
def claimedRecord (c : Claimed) (s : McpCell) : Frame ⊕ Ret :=
  match s.get c.pending.serverName with
  | none => .inr (.finished (.error stateInvalid))
  | some record =>
    if c.expired ∨ record.url ≠ c.pending.serverUrl then .inr (.finished (.error stateInvalid))
    else if !oauthAttemptIdentityMatches c.pending.serverId c.pending.clientId (some record.id)
        (c.client.map fun client => client.information.clientId) then
      .inr (.finished (.ok (parked record.name (changedMessage record.name))))
    else
      match refusal c with
      | some message => park c record "authorize" message
      | none => .inl (.exchanging c record (c.input.code.getD []))

/-- The `mcpServerSetDiscovery` of `park`. -/
def parkServer (now : ℕ) (c : Claimed) (phase message : Text) (s : McpCell) :
    McpCell × (Frame ⊕ Ret) :=
  let name := c.pending.serverName
  let origin := some c.pending.serverOrigin
  let r := s.setDiscovery p now name (.auth .authenticating ⟨phase, message, now⟩ origin none)
  let written := match s.row name with
    | some row => McpCell.authApplies p row origin
    | none => false
  (if written then r.2.wroteServer name (c.pending.serverId.getD []) else r.2,
    .inr (.finished (r.1.map fun _ => parked name message)))

/-- The checks of `completeOAuth`, made right before the write. -/
def mayComplete (pending : PendingRow) (row : ServerRow) (storedClientId : Option Text) : Bool :=
  decide (row.url = pending.serverUrl) && sameOrigin p row.url pending.serverOrigin &&
    decide (row.auth ≠ .bearer) &&
    oauthAttemptIdentityMatches pending.serverId pending.clientId (some row.id) storedClientId

/-- `completeOAuth` once everything is sealed. -/
def completeOAuth (now : ℕ) (c : Claimed) (tokens : OAuthTokens)
    (savedClient : Option ClientInformation) (s : McpCell) : McpCell × (Frame ⊕ Ret) :=
  let name := c.pending.serverName
  match s.row name with
  | none => (s, .inr (.finished (.ok (parked name (changedMessage name)))))
  | some row =>
    if mayComplete p c.pending row (s.storedClientId name) then
      let id := c.pending.serverId.getD []
      let committed := s.commitGrant now name (sealTokens now tokens) (savedClient.map sealClient)
      ((((({ committed with
            commits := ⟨c.pending, row, s.storedClientId name⟩ :: s.commits }).wroteOAuth name id)
          ).markOAuth now name).wroteServer name id,
        .inr (.committed name))
    else (s, .inr (.finished (.ok (parked name (changedMessage name)))))

/-! ### The next piece of a call -/

/-- `save` up to its first `await`. -/
def save (input : SaveInput) (i : Input) (s : McpCell) : McpCell × (Frame ⊕ Ret) :=
  let existing := s.row input.name
  if existing.isSome && !input.replace then
    (s, .inr (.record (.error (.kody "mcp_server_exists" ("MCP server \"" ++ input.name ++
      "\" already exists. Pass replace: true to overwrite it.") 409))))
  else
    let s := if McpCell.saveClears existing input then s.clear input.name else s
    if (truthy input.authorization).isSome then (s, .inl (.sealingBearer input existing))
    else
      let s := s.saveRow p i.now i.draw existing input
      (s, .inr (.record (s.requireRecord input.name)))

/-- The first piece of a call. -/
def begin (s : McpCell) (call : Call) (i : Input) : McpCell × (Frame ⊕ Ret) :=
  match call with
  | .save input => save p input i s
  | .remove name =>
    let r := s.remove name
    (r.2, .inr (.removed r.1))
  | .setDiscovery name outcome =>
    let r := s.setDiscovery p i.now name outcome
    (r.2, .inr (.record r.1))
  | .setEnabled name enabled =>
    let r := s.setEnabled i.now name enabled
    (r.2, .inr (.record r.1))
  | .setUsage name usage =>
    let r := s.setUsage i.now name usage
    (r.2, .inr (.record r.1))
  | .callAuthorization name options => (s, callAuthorization name options s)
  | .setClient name clientId clientSecret =>
    if (s.row name).isNone then
      (s, .inr (.client (.error (.kody "mcp_server_not_found"
        ("MCP server \"" ++ name ++ "\" was not found.") 404))))
    else setPreregisteredClient i.now name clientId clientSecret s
  | .clearClient name => (s.clearClient i.now name, .inr (.client (.ok ())))
  | .startOAuth name =>
    match (s.get name).filter fun record => decide (record.auth = .oauth) with
    | none => (s, .inr (.started (.error (.kody "mcp_server_not_found"
        ("MCP server \"" ++ name ++ "\" is not an OAuth server.") 404))))
    | some record => (s, .inl (.loading record))
  | .finishOAuth input =>
    if input.state = [] then (s, .inr (.finished (.error stateInvalid)))
    else
      match s.pending.find? input.state with
      | none => (s, .inr (.finished (.error stateInvalid)))
      | some row =>
        (s.claimPending i.now input.state,
          .inl (.openingVerifier { row with completedAt := some (row.completedAt.getD i.now) }
            row.completedAt.isNone input))

/-- Runs a call up to its next `await` or its return. -/
def piece (s : McpCell) (f : Frame) (i : Input) : McpCell × (Frame ⊕ Ret) :=
  match f, i.rejected with
  | .start call, _ => begin p s call i
  | .sealingBearer _ _, some message => (s, .inr (.record (.error (.error message))))
  | .sealingBearer input existing, none =>
    let s := s.saveRow p i.now i.draw existing input
    (s, .inr (.record (s.requireRecord input.name)))
  | .opening name _ _ basis, some message =>
    (s, .inl (.answered name (.error (.error message)) basis))
  | .opening name options row basis, none =>
    let r := openedTokens i.now name options row basis s
    (r.1, .inl r.2)
  | .openingClient r _, some message => (s, .inl (r.settle (.error (.error message))))
  | .openingClient r row, none =>
    let x := openedClient i.now r row s
    (x.1, .inl x.2)
  | .refreshing r client, _ =>
    match i.refreshed with
    | .error error =>
      let x := refreshFailed i.now r client error s
      (x.1, .inl x.2)
    | .ok next => (s, .inl (.sealing r next))
  | .sealing r _, some message => (s, .inl (r.settle (.error (.error message))))
  | .sealing r next, none =>
    let x := sealedRefresh i.now r next s
    (x.1, .inl x.2)
  | .settling name task result basis, _ =>
    ({ s with
        inFlight := if s.inFlight name = some task then Function.update s.inFlight name none
          else s.inFlight
        settled := Function.update s.settled name
          (Function.update (s.settled name) task (some (result, basis))) },
      .inl (.waiting name task))
  | .waiting name task, _ =>
    match s.settled name task with
    | none => (s, .inl (.waiting name task))
    | some (result, basis) => (s, .inl (.answered name result basis))
  | .answered name result basis, _ => answer p i.now name result basis s
  | .openingBearer _, some message => (s, .inr (.authorization (.error (.error message))))
  | .openingBearer bearer, none => (s, .inr (.authorization (.ok (some bearer))))
  | .sealingClient _ _, some message => (s, .inr (.client (.error (.error message))))
  | .sealingClient name information, none =>
    (s.writeClient i.now name .preregistered (sealClient information), .inr (.client (.ok ())))
  | .loading record, _ => (s, .inl (.openingLoaded record (s.oauthRow record.name)))
  | .openingLoaded _ _, some message => (s, .inr (.started (.error (.error message))))
  | .openingLoaded record row, none => (s, .inl (.probing record (client row)))
  | .probing record client, _ =>
    match i.begun with
    | .error e => (s, .inr (.started (.error e)))
    | .ok begun => probed p i.now record client begun s
  | .sealingBegun _ _, some message => (s, .inr (.started (.error (.error message))))
  | .sealingBegun b information, none =>
    ((s.writeClient i.now b.record.name b.begun.mode (sealClient information)).wroteOAuth
        b.record.name b.record.id,
      .inl (.savedClient b))
  | .savedClient b, _ => saveBegun i.now b s
  | .sealingVerifier _ _, some message => (s, .inr (.started (.error (.error message))))
  | .sealingVerifier b startedAt, none => createPending p b startedAt s
  | .openingVerifier _ _ _, some message => (s, .inr (.finished (.error (.error message))))
  | .openingVerifier pending firstClaim input, none =>
    (s, .inl (.openingClaimed ⟨pending, decide (pending.expiresAt < i.now), none, none, input⟩
      firstClaim (s.oauthRow pending.serverName)))
  | .openingClaimed _ _ _, some message => (s, .inr (.finished (.error (.error message))))
  | .openingClaimed c firstClaim row, none =>
    let name := c.pending.serverName
    if firstClaim then
      (s, .inl (.claimed { c with client := client row, discovery := s.discovery name }))
    else (s, .inr (.finished (.ok ⟨name, true, true, none⟩)))
  | .claimed c, _ => (s, claimedRecord c s)
  | .exchanging c record code, _ =>
    match i.exchanged with
    | .error e =>
      let secret := c.client.bind fun client => client.information.clientSecret
      let message := (redactSecrets e.message [some code, some c.pending.verifier, secret]).take 300
      (s, park c record "token exchange" message)
    | .ok (tokens, savedClient) => (s, .inl (.sealingGrant c tokens savedClient))
  | .parking c phase message, _ => parkServer p i.now c phase message s
  | .sealingGrant _ _ _, some message => (s, .inr (.finished (.error (.error message))))
  | .sealingGrant c tokens savedClient, none => completeOAuth p i.now c tokens savedClient s

/-- The piece may insert a server row. -/
def Frame.inserts : Frame → Bool
  | .start (.save _) => true
  | .sealingBearer _ _ => true
  | _ => false

/-- An id drawn for a new server was not given to a server before. -/
def resume (s : McpCell) (f : Frame) (i : Input) : Option (McpCell × (Frame ⊕ Ret)) :=
  if f.inserts ∧ i.draw ∈ s.issued then none else some (piece p s f i)

/-- **The calls on one user's MCP servers.** -/
def mcp : Coop where
  Shared := McpCell
  Call := Call
  Frame := Frame
  Input := Input
  Ret := Ret
  start := Frame.start
  resume := resume p

end

end KodyCelld.Mcp
