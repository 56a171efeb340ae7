import KodyCelld.OAuth.SequentialRuns

namespace KodyCelld.OAuth

open KodyCelld.Lib OAuthStore

/-!
# The authorization server under concurrent calls

The operations of `oauth/server-store.ts` and the code exchange of `oauth/routes.ts`, cut at their
`await`s, over one shared store: between two pieces of a call any other call may run.

* `resume` — the next piece of a call;
* `server` — the system of calls;
* `resume_drawn`, `resume_codes`, `resume_clients`, `resume_grants`, `resume_tokens` — what one
  piece can do to each table.

Random values are drawn before the hash of each of them is awaited.  Nothing reads them earlier than
the `INSERT` after that hash, so the model draws them there.
-/

/-! ### Calls -/

/-- The fields of the token form that a code exchange reads. -/
structure ExchangeForm where
  code : Option Text
  redirectUri : Option Text
  codeVerifier : Option Text
  resource : Option Text
  deriving DecidableEq, Repr

inductive Call where
  | clientRegister (registration : ClientRegistration)
  | codeIssue (input : CodeInput)
  /-- `POST /oauth/token` with `grant_type=authorization_code`. -/
  | exchange (credentials : ClientCredentials) (form : ExchangeForm)
  | tokensRefresh (refreshToken clientId : Text)
  | tokenRevoke (token clientId : Text)
  | grantRevoke (userId grantId : Text)
  | purge
  deriving DecidableEq, Repr

/-- What an exchange holds once it took a code: the client that authenticated, the code's row, and
    when it was taken. -/
structure Ticket where
  client : ClientRow
  row : CodeRow
  takenAt : ℕ
  deriving DecidableEq, Repr

/-- A pair being minted; `startedAt` is read before the first hash. -/
structure Minting where
  startedAt : ℕ
  grantId : Text
  familyId : Text
  scope : Text
  deriving DecidableEq, Repr

/-- What the pair is for. -/
inductive MintFor where
  | exchange (ticket : Ticket)
  | rotation (refreshToken clientId : Text)
  deriving DecidableEq, Repr

/-- Where a call stands. -/
inductive Frame where
  | clientRegister (registration : ClientRegistration)
  | clientHashed (createdAt : ℕ) (registration : ClientRegistration)
  | codeIssue (input : CodeInput)
  | codeHashed (issuedAt : ℕ) (input : CodeInput)
  | exchange (credentials : ClientCredentials) (form : ExchangeForm)
  | authenticated (client : ClientRow) (form : ExchangeForm)
  | codeTaken (ticket : Ticket) (form : ExchangeForm)
  | granted (ticket : Ticket) (grantId : Text)
  | mintAccess (m : Minting) (goal : MintFor)
  | mintRefresh (m : Minting) (goal : MintFor) (accessToken : Text)
  | sealing (m : Minting) (refreshToken clientId : Text) (fresh : TokenResponse)
  | tokensRefresh (refreshToken clientId : Text)
  | refreshHashed (refreshToken clientId : Text)
  | replaying (refreshToken familyId json : Text)
  | tokenRevoke (token clientId : Text)
  | accessHashed (token : Text)
  | grantRevoke (userId grantId : Text)
  | purge
  deriving DecidableEq, Repr

/-- What a call returned.  Beside the answer: when a code was issued, the ticket behind a pair, and
    the family that a refresh or a revocation ended. -/
inductive Ret where
  | registered (answer : Except OAuthError ClientRow)
  | codeIssued (answer : Except OAuthError Text) (issuedAt : ℕ)
  | exchanged (answer : Except OAuthError TokenResponse) (ticket : Option Ticket)
  | refreshed (answer : Except OAuthError TokenResponse) (ended : Option Text)
  | revoked (answer : Bool) (ended : Option Text)
  | grantRevoked (answer : Except OAuthError Unit)
  | purged
  deriving DecidableEq

/-- What the platform supplies to one piece of a call: the clock and random values. -/
structure Input where
  now : ℕ
  draw : Text
  extra : Text
  deriving DecidableEq, Repr

/-- The store and the random values drawn so far. -/
structure Server where
  store : OAuthStore
  drawn : List Text

/-! ### The token endpoint (`oauth/routes.ts`, `oauth/protocol.ts`) -/

section
variable (p : Platform)

/-- `[A-Za-z0-9._~-]` -/
def isVerifierChar (c : Char) : Bool :=
  c.isAlphanum || c = '.' || c = '_' || c = '~' || c = '-'

def verifyPkce (verifier : Option Text) (challenge : Text) : Bool :=
  match verifier with
  | none => false
  | some v =>
    decide (43 ≤ v.length) && decide (v.length ≤ 128) && v.all isVerifierChar &&
      decide (p.pkceChallenge v = challenge)

/-- The part of the exchange up to the code's row: the client's grant types and the code. -/
def exchangeCode (client : ClientRow) (form : ExchangeForm) : Except OAuthError Text :=
  if ("authorization_code" : Text) ∉ client.registration.grantTypes then
    .error (.protocol "unauthorized_client" "Client may not use authorization_code.")
  else if isBlank form.code then
    .error (.protocol "invalid_request" "code is required.")
  else .ok (form.code.getD [])

/-- The checks on the consumed record before the verifier is hashed. -/
def checkRecord (client : ClientRow) (form : ExchangeForm) (record : Option CodeRow) :
    Except OAuthError CodeRow :=
  match record with
  | none => .error (.protocol "invalid_grant" "Unknown, expired, or already-used code.")
  | some row =>
    if row.clientId ≠ client.clientId then
      .error (.protocol "invalid_grant" "Unknown, expired, or already-used code.")
    else if !isBlank form.redirectUri && decide (form.redirectUri ≠ some row.redirectUri) then
      .error (.protocol "invalid_grant" "redirect_uri does not match the authorization request.")
    else .ok row

/-- The checks from the verifier on. -/
def checkVerifier (form : ExchangeForm) (row : CodeRow) : Except OAuthError Unit :=
  if verifyPkce p form.codeVerifier row.codeChallenge = false then
    .error (.protocol "invalid_grant" "PKCE code_verifier does not match.")
  else if !isBlank form.resource && decide (form.resource ≠ some row.resource) then
    .error (.protocol "invalid_target" ("Tokens are issued for " ++ row.resource ++ " only."))
  else .ok ()

/-! ### The next piece of a call -/

def Call.start : Call → Frame
  | .clientRegister registration => .clientRegister registration
  | .codeIssue input => .codeIssue input
  | .exchange credentials form => .exchange credentials form
  | .tokensRefresh refreshToken clientId => .tokensRefresh refreshToken clientId
  | .tokenRevoke token clientId => .tokenRevoke token clientId
  | .grantRevoke userId grantId => .grantRevoke userId grantId
  | .purge => .purge

/-- A failed `INSERT` of `mintPair`. -/
def MintFor.fail : MintFor → OAuthError → Ret
  | .exchange _, e => .exchanged (.error e) none
  | .rotation .., e => .refreshed (.error e) none

/-- After the second `INSERT` the exchange returns; a rotation still has to seal its answer. -/
def MintFor.done (m : Minting) (fresh : TokenResponse) : MintFor → Frame ⊕ Ret
  | .exchange ticket => .inr (.exchanged (.ok fresh) (some ticket))
  | .rotation refreshToken clientId => .inl (.sealing m refreshToken clientId fresh)

/-- The family that a refused refresh ended by reuse detection. -/
def endedBy (e : OAuthError) (hash : Text) (s : OAuthStore) : Option Text :=
  if e = reusedRefresh then (s.tokens.find? hash).map TokenRow.familyId else none

/-- Runs a call up to its next `await` or its return. -/
def piece (s : OAuthStore) : Frame → Input → OAuthStore × (Frame ⊕ Ret)
  | .clientRegister registration, i => (purge i.now s, .inl (.clientHashed i.now registration))
  | .clientHashed createdAt registration, i =>
    let r := insertClient p createdAt i.draw (some i.extra) registration s
    (r.2, .inr (.registered r.1))
  | .codeIssue input, i => (s, .inl (.codeHashed i.now input))
  | .codeHashed issuedAt input, i =>
    let r := insertCode p issuedAt i.draw input s
    (r.2, .inr (.codeIssued r.1 issuedAt))
  | .exchange credentials form, _ =>
    match clientAuthenticate p credentials s with
    | .error e => (s, .inr (.exchanged (.error e) none))
    | .ok client => (s, .inl (.authenticated client form))
  | .authenticated client form, i =>
    match exchangeCode client form with
    | .error e => (s, .inr (.exchanged (.error e) none))
    | .ok code =>
      let r := takeCode i.now (p.sha256Hex code) s
      match checkRecord client form r.1 with
      | .error e => (r.2, .inr (.exchanged (.error e) none))
      | .ok row => (r.2, .inl (.codeTaken ⟨client, row, i.now⟩ form))
  | .codeTaken ticket form, i =>
    match checkVerifier p form ticket.row with
    | .error e => (s, .inr (.exchanged (.error e) none))
    | .ok _ =>
      let r := grantEnsure i.now i.draw ticket.row.userId ticket.client.clientId ticket.row.scope s
      match r.1 with
      | .error e => (r.2, .inr (.exchanged (.error e) none))
      | .ok grantId => (r.2, .inl (.granted ticket grantId))
  | .granted ticket grantId, i =>
    -- `tokensIssue`: a new family, then `mintPair` starts
    (touchClient i.now ticket.client.clientId (purge i.now s),
      .inl (.mintAccess ⟨i.now, grantId, i.draw, ticket.row.scope⟩ (.exchange ticket)))
  | .mintAccess m goal, i =>
    let r := insertToken p m.startedAt .access i.draw m.grantId m.familyId s
    match r.1 with
    | .error e => (r.2, .inr (goal.fail e))
    | .ok _ => (r.2, .inl (.mintRefresh m goal i.draw))
  | .mintRefresh m goal accessToken, i =>
    let r := insertToken p m.startedAt .refresh i.draw m.grantId m.familyId s
    match r.1 with
    | .error e => (r.2, .inr (goal.fail e))
    | .ok _ => (touchGrant m.startedAt m.grantId r.2, goal.done m ⟨accessToken, i.draw, m.scope⟩)
  | .sealing m refreshToken clientId fresh, i =>
    (touchClient i.now clientId (markReplaced m.startedAt (p.sha256Hex refreshToken)
        (p.sealReplay i.extra fresh) s),
      .inr (.refreshed (.ok fresh) none))
  | .tokensRefresh refreshToken clientId, i =>
    (purge i.now s, .inl (.refreshHashed refreshToken clientId))
  | .refreshHashed refreshToken clientId, i =>
    let hash := p.sha256Hex refreshToken
    let r := refreshLookup i.now hash clientId s
    match r.1 with
    | .refused e => (r.2, .inr (.refreshed (.error e) (endedBy e hash s)))
    | .replay familyId json => (r.2, .inl (.replaying refreshToken familyId json))
    | .rotate row scope =>
      (r.2, .inl (.mintAccess ⟨i.now, row.grantId, row.familyId, scope⟩
        (.rotation refreshToken clientId)))
  | .replaying _ familyId json, _ =>
    match p.openReplay json with
    | some response => (s, .inr (.refreshed (.ok response) none))
    | none => (familyRevoke familyId s, .inr (.refreshed (.error reusedRefresh) (some familyId)))
  | .tokenRevoke token clientId, _ =>
    match revocable (p.sha256Hex token) clientId s with
    | none => (s, .inr (.revoked false none))
    | some row =>
      if row.kind = .refresh then
        (familyRevoke row.familyId s, .inr (.revoked true (some row.familyId)))
      else (s, .inl (.accessHashed token))
  | .accessHashed token, _ => (deleteToken (p.sha256Hex token) s, .inr (.revoked true none))
  | .grantRevoke userId grantId, _ =>
    let r := grantRevoke userId grantId s
    (r.2, .inr (.grantRevoked r.1))
  | .purge, i => (purge i.now s, .inr .purged)

/-- Whether the piece draws a random value that reaches the store. -/
def Frame.draws : Frame → Bool
  | .clientHashed .. | .codeHashed .. | .codeTaken .. | .granted .. | .mintAccess ..
  | .mintRefresh .. => true
  | _ => false

/-- A piece runs with a value that was never drawn before. -/
def resume (s : Server) (f : Frame) (i : Input) : Option (Server × (Frame ⊕ Ret)) :=
  if f.draws then
    if i.draw ∈ s.drawn then none
    else some (⟨(piece p s.store f i).1, i.draw :: s.drawn⟩, (piece p s.store f i).2)
  else some (⟨(piece p s.store f i).1, s.drawn⟩, (piece p s.store f i).2)

/-- The server as a system of concurrent calls. -/
abbrev server : Coop where
  Shared := Server
  Call := Call
  Frame := Frame
  Input := Input
  Ret := Ret
  start := Call.start
  resume := resume p

/-- The server before its first call. -/
def freshServer : Coop.Config (server p) := @Coop.idle (server p) ⟨emptyStore, []⟩

end

/-! ### What a statement leaves alone -/

section
variable {p : Platform} {s : OAuthStore}

@[simp] theorem insertClient_frame (now : ℕ) (clientId : Text) (secret : Option Text)
    (registration : ClientRegistration) :
    (insertClient p now clientId secret registration s).2.codes = s.codes ∧
      (insertClient p now clientId secret registration s).2.grants = s.grants ∧
      (insertClient p now clientId secret registration s).2.tokens = s.tokens := by
  unfold insertClient
  dsimp only
  split <;> exact ⟨rfl, rfl, rfl⟩

@[simp] theorem insertCode_frame (now : ℕ) (code : Text) (input : CodeInput) :
    (insertCode p now code input s).2.clients = s.clients ∧
      (insertCode p now code input s).2.grants = s.grants ∧
      (insertCode p now code input s).2.tokens = s.tokens := by
  unfold insertCode
  split <;> exact ⟨rfl, rfl, rfl⟩

@[simp] theorem takeCode_frame (now : ℕ) (hash : Text) :
    (takeCode now hash s).2.clients = s.clients ∧ (takeCode now hash s).2.grants = s.grants ∧
      (takeCode now hash s).2.tokens = s.tokens := by
  unfold takeCode
  split
  · exact ⟨rfl, rfl, rfl⟩
  · dsimp only
    split <;> exact ⟨rfl, rfl, rfl⟩

@[simp] theorem grantEnsure_frame (now : ℕ) (newId userId clientId scope : Text) :
    (grantEnsure now newId userId clientId scope s).2.clients = s.clients ∧
      (grantEnsure now newId userId clientId scope s).2.codes = s.codes ∧
      (grantEnsure now newId userId clientId scope s).2.tokens = s.tokens := by
  unfold grantEnsure
  split
  · exact ⟨rfl, rfl, rfl⟩
  · split <;> exact ⟨rfl, rfl, rfl⟩

@[simp] theorem insertToken_frame (now : ℕ) (kind : TokenKind) (token g f : Text) :
    (insertToken p now kind token g f s).2.clients = s.clients ∧
      (insertToken p now kind token g f s).2.codes = s.codes ∧
      (insertToken p now kind token g f s).2.grants = s.grants := by
  unfold insertToken
  split <;> exact ⟨rfl, rfl, rfl⟩

@[simp] theorem grantRevoke_frame (userId grantId : Text) :
    (grantRevoke userId grantId s).2.clients = s.clients ∧
      (grantRevoke userId grantId s).2.codes = s.codes := by
  unfold grantRevoke
  split <;> exact ⟨rfl, rfl⟩

@[simp] theorem refreshLookup_frame (now : ℕ) (hash clientId : Text) :
    (refreshLookup now hash clientId s).2.clients = s.clients ∧
      (refreshLookup now hash clientId s).2.codes = s.codes ∧
      (refreshLookup now hash clientId s).2.grants = s.grants := by
  unfold refreshLookup
  repeat' split
  all_goals exact ⟨rfl, rfl, rfl⟩

/-! ### What a piece does to the codes and the clients -/

/-- Only the last piece of `codeIssue` adds a code. -/
theorem piece_codes {f : Frame} {i : Input} {row : CodeRow}
    (h : row ∈ (piece p s f i).1.codes.rows) :
    row ∈ s.codes.rows ∨ ∃ issuedAt input, f = .codeHashed issuedAt input ∧
      row ∈ (insertCode p issuedAt i.draw input s).2.codes.rows := by
  cases f with
  | codeHashed issuedAt input => exact .inr ⟨issuedAt, input, rfl, h⟩
  | clientRegister registration => exact .inl (Rows.mem_filter.mp h).1
  | authenticated client form =>
    left
    have htake : ∀ code, row ∈ (takeCode i.now (p.sha256Hex code) s).2.codes.rows →
        row ∈ s.codes.rows := by
      intro code hrow
      unfold takeCode at hrow
      split at hrow
      · exact hrow
      · dsimp only at hrow
        split at hrow
        · exact (Rows.mem_filter.mp hrow).1
        · exact (Rows.mem_filter.mp hrow).1
    simp only [piece] at h
    split at h
    · exact h
    · rename_i code _
      split at h
      · exact htake code h
      · exact htake code h
  | granted ticket grantId => exact .inl (Rows.mem_filter.mp h).1
  | tokensRefresh token clientId => exact .inl (Rows.mem_filter.mp h).1
  | purge => exact .inl (Rows.mem_filter.mp h).1
  | _ =>
    left
    simp only [piece] at h
    repeat' split at h
    all_goals simpa [touchClient, touchGrant, markReplaced, familyRevoke, deleteToken] using h

/-- Only the last piece of `clientRegister` adds a client; the others only stamp them. -/
theorem piece_clients {f : Frame} {i : Input} {row : ClientRow}
    (h : row ∈ (piece p s f i).1.clients.rows) :
    (∃ old ∈ s.clients.rows, old.clientId = row.clientId ∧
      old.clientSecretHash = row.clientSecretHash ∧ old.registration = row.registration) ∨
    (piece p s f i).2 = .inr (.registered (.ok row)) := by
  have hsame : row ∈ s.clients.rows → ∃ old ∈ s.clients.rows, old.clientId = row.clientId ∧
      old.clientSecretHash = row.clientSecretHash ∧ old.registration = row.registration :=
    fun hrow => ⟨row, hrow, rfl, rfl, rfl⟩
  have htouch : ∀ {now : ℕ} {clientId : Text} {s' : OAuthStore}, (∀ row ∈ s'.clients.rows, row ∈ s.clients.rows) →
      row ∈ (touchClient now clientId s').clients.rows →
      ∃ old ∈ s.clients.rows, old.clientId = row.clientId ∧
        old.clientSecretHash = row.clientSecretHash ∧ old.registration = row.registration := by
    intro now clientId s' hs' hrow
    obtain ⟨old, hold, heq⟩ := List.mem_map.mp hrow
    refine ⟨old, hs' old hold, ?_⟩
    rw [← heq]
    split <;> exact ⟨rfl, rfl, rfl⟩
  cases f with
  | clientHashed createdAt registration =>
    simp only [piece] at h ⊢
    unfold insertClient at h ⊢
    dsimp only at h ⊢
    split at h
    · rename_i clients hclients
      rcases (Rows.mem_insert? hclients).mp h with hrow | rfl
      · exact .inl (hsame hrow)
      · exact .inr rfl
    · exact .inl (hsame h)
  | clientRegister registration => exact .inl (hsame (Rows.mem_filter.mp h).1)
  | granted ticket grantId =>
    exact .inl (htouch (fun _ hrow => (Rows.mem_filter.mp hrow).1) h)
  | sealing m token clientId fresh => exact .inl (htouch (fun _ hrow => hrow) h)
  | tokensRefresh token clientId => exact .inl (hsame (Rows.mem_filter.mp h).1)
  | purge => exact .inl (hsame (Rows.mem_filter.mp h).1)
  | _ =>
    left
    apply hsame
    simp only [piece] at h
    repeat' split at h
    all_goals simpa [touchGrant, familyRevoke, deleteToken] using h

/-! ### Frames and their calls -/

/-- The call mints for the goal. -/
def Mints (c : Call) : MintFor → Prop
  | .exchange _ => ∃ credentials form, c = .exchange credentials form
  | .rotation refreshToken clientId => c = .tokensRefresh refreshToken clientId

/-- The frame is one of the call, and kept what it was called with. -/
def Belongs (c : Call) : Frame → Prop
  | .clientRegister registration => c = .clientRegister registration
  | .clientHashed _ registration => c = .clientRegister registration
  | .codeIssue input => c = .codeIssue input
  | .codeHashed _ input => c = .codeIssue input
  | .exchange credentials form => c = .exchange credentials form
  | .authenticated _ form => ∃ credentials, c = .exchange credentials form
  | .codeTaken _ form => ∃ credentials, c = .exchange credentials form
  | .granted .. => ∃ credentials form, c = .exchange credentials form
  | .mintAccess _ goal => Mints c goal
  | .mintRefresh _ goal _ => Mints c goal
  | .sealing _ refreshToken clientId _ => c = .tokensRefresh refreshToken clientId
  | .tokensRefresh refreshToken clientId => c = .tokensRefresh refreshToken clientId
  | .refreshHashed refreshToken clientId => c = .tokensRefresh refreshToken clientId
  | .replaying refreshToken .. => ∃ clientId, c = .tokensRefresh refreshToken clientId
  | .tokenRevoke token clientId => c = .tokenRevoke token clientId
  | .accessHashed token => ∃ clientId, c = .tokenRevoke token clientId
  | .grantRevoke userId grantId => c = .grantRevoke userId grantId
  | .purge => c = .purge

theorem belongs_start (c : Call) : Belongs c c.start := by
  cases c <;> rfl

/-- A piece leads to a frame of the same call. -/
theorem belongs_piece {c : Call} {f f' : Frame} {i : Input} (hf : Belongs c f)
    (h : (piece p s f i).2 = .inl f') : Belongs c f' := by
  cases f with
  | exchange credentials form =>
    simp only [piece] at h
    split at h
    · exact absurd h (by simp)
    obtain rfl := Sum.inl.inj h
    exact ⟨credentials, hf⟩
  | authenticated client form =>
    simp only [piece] at h
    split at h
    · exact absurd h (by simp)
    split at h
    · exact absurd h (by simp)
    obtain rfl := Sum.inl.inj h
    exact hf
  | codeTaken ticket form =>
    obtain ⟨credentials, hc⟩ := hf
    simp only [piece] at h
    split at h
    · exact absurd h (by simp)
    split at h
    · exact absurd h (by simp)
    obtain rfl := Sum.inl.inj h
    exact ⟨credentials, form, hc⟩
  | mintAccess m goal =>
    simp only [piece] at h
    split at h
    · exact absurd h (by simp)
    obtain rfl := Sum.inl.inj h
    exact hf
  | mintRefresh m goal access =>
    simp only [piece] at h
    split at h
    · exact absurd h (by simp)
    cases goal with
    | exchange ticket => exact absurd h (by simp [MintFor.done])
    | rotation token clientId =>
      obtain rfl := Sum.inl.inj h
      exact hf
  | refreshHashed token clientId =>
    simp only [piece] at h
    split at h
    · exact absurd h (by simp)
    · obtain rfl := Sum.inl.inj h
      exact ⟨clientId, hf⟩
    · obtain rfl := Sum.inl.inj h
      exact hf
  | tokenRevoke token clientId =>
    simp only [piece] at h
    split at h
    · exact absurd h (by simp)
    split at h
    · exact absurd h (by simp)
    obtain rfl := Sum.inl.inj h
    exact ⟨clientId, hf⟩
  | replaying token familyId json =>
    simp only [piece] at h
    split at h <;> exact absurd h (by simp)
  | clientRegister registration =>
    obtain rfl := Sum.inl.inj h
    exact hf
  | codeIssue input =>
    obtain rfl := Sum.inl.inj h
    exact hf
  | granted ticket grantId =>
    obtain rfl := Sum.inl.inj h
    exact hf
  | tokensRefresh token clientId =>
    obtain rfl := Sum.inl.inj h
    exact hf
  | _ => exact absurd h (by simp [piece])

/-! ### Steps of the server -/

/-- The random values drawn so far after a piece. -/
def Drawn (f : Frame) (i : Input) (before after : List Text) : Prop :=
  (f.draws = false ∧ after = before) ∨ (i.draw ∉ before ∧ after = i.draw :: before)

theorem Drawn.subset {f : Frame} {i : Input} {before after : List Text}
    (h : Drawn f i before after) {v : Text} (hv : v ∈ before) : v ∈ after := by
  rcases h with ⟨-, rfl⟩ | ⟨-, rfl⟩
  · exact hv
  · exact List.mem_cons_of_mem _ hv

/-- A piece that stores a random value has drawn a new one. -/
theorem Drawn.fresh {f : Frame} {i : Input} {before after : List Text}
    (h : Drawn f i before after) (hf : f.draws = true) :
    i.draw ∉ before ∧ after = i.draw :: before := by
  rcases h with ⟨hnot, -⟩ | hfresh
  · rw [hf] at hnot
    exact absurd hnot (by simp)
  · exact hfresh

/-- One piece of the call of thread `t` was run: what it did to the store, the values drawn, the
    calls in flight and those returned. -/
structure Ran (p : Platform) (g g' : Coop.Config (server p)) (t : ℕ) (c : Call) (f : Frame)
    (i : Input) : Prop where
  before : g.pool t = some (c, f)
  store : g'.shared.store = (piece p g.shared.store f i).1
  drawn : Drawn f i g.shared.drawn g'.shared.drawn
  pool : ∀ u c' f', g'.pool u = some (c', f') →
    (u ≠ t ∧ g.pool u = some (c', f')) ∨
      (u = t ∧ c' = c ∧ (piece p g.shared.store f i).2 = .inl f')
  log : ((∃ f', (piece p g.shared.store f i).2 = .inl f') ∧ g'.log = g.log) ∨
    ∃ r, (piece p g.shared.store f i).2 = .inr r ∧ g'.log = (c, r) :: g.log

/-- **Inversion.** A step makes a call or runs one piece of a call. -/
theorem server_step {g g' : Coop.Config (server p)} {e : Coop.Event (server p)}
    (h : Coop.step g e = some g') :
    (∃ t c, e = .call t c ∧
      g' = { g with pool := Function.update g.pool t (some (c, Call.start c)) }) ∨
    ∃ t i c f, e = .resume t i ∧ Ran p g g' t c f i := by
  have hresume : ∀ {f i s' out}, resume p g.shared f i = some (s', out) →
      s'.store = (piece p g.shared.store f i).1 ∧ out = (piece p g.shared.store f i).2 ∧
        Drawn f i g.shared.drawn s'.drawn := by
    intro f i s' out hr
    unfold resume at hr
    split at hr
    · rename_i hdraws
      split at hr
      · exact absurd hr (by simp)
      rename_i hnew
      obtain ⟨rfl, rfl⟩ := Prod.mk.inj (Option.some.inj hr)
      exact ⟨rfl, rfl, .inr ⟨hnew, rfl⟩⟩
    · rename_i hdraws
      obtain ⟨rfl, rfl⟩ := Prod.mk.inj (Option.some.inj hr)
      exact ⟨rfl, rfl, .inl ⟨Bool.eq_false_iff.mpr hdraws, rfl⟩⟩
  rcases Coop.step_cases h with ⟨t, c, he, -, rfl⟩ | ⟨t, i, c, f, s', f', rfl, hpool, hr, rfl⟩ |
    ⟨t, i, c, f, s', r, rfl, hpool, hr, rfl⟩
  · exact .inl ⟨t, c, he, rfl⟩
  · right
    obtain ⟨hstore, hout, hdrawn⟩ := hresume hr
    refine ⟨t, i, c, f, rfl, ⟨hpool, hstore, hdrawn, fun u c' f'' hu => ?_, .inl ⟨⟨f', hout.symm⟩, rfl⟩⟩⟩
    rcases Coop.pool_update_cases hu with ⟨rfl, heq⟩ | ⟨hne, hold⟩
    · obtain ⟨rfl, rfl⟩ := Prod.mk.inj (Option.some.inj heq)
      exact .inr ⟨rfl, rfl, hout.symm⟩
    · exact .inl ⟨hne, hold⟩
  · right
    obtain ⟨hstore, hout, hdrawn⟩ := hresume hr
    refine ⟨t, i, c, f, rfl, ⟨hpool, hstore, hdrawn, fun u c' f'' hu => ?_, .inr ⟨r, hout.symm, rfl⟩⟩⟩
    rcases Coop.pool_update_cases hu with ⟨-, heq⟩ | ⟨hne, hold⟩
    · exact absurd heq (by simp)
    · exact .inl ⟨hne, hold⟩

/-- An entry of the log is new or was there. -/
theorem Ran.log_cases {g g' : Coop.Config (server p)} {t : ℕ} {c : Call} {f : Frame} {i : Input}
    (h : Ran p g g' t c f i) {entry : Call × Ret} (hentry : entry ∈ g'.log) :
    entry ∈ g.log ∨ (entry.1 = c ∧ (piece p g.shared.store f i).2 = .inr entry.2) := by
  rcases h.log with ⟨-, hlog⟩ | ⟨r, hr, hlog⟩
  · exact .inl (hlog ▸ hentry)
  · rw [hlog] at hentry
    rcases List.mem_cons.mp hentry with rfl | hold
    · exact .inr ⟨rfl, hr⟩
    · exact .inl hold

theorem Ran.log_subset {g g' : Coop.Config (server p)} {t : ℕ} {c : Call} {f : Frame} {i : Input}
    (h : Ran p g g' t c f i) {entry : Call × Ret} (hentry : entry ∈ g.log) : entry ∈ g'.log := by
  rcases h.log with ⟨-, hlog⟩ | ⟨r, -, hlog⟩
  · exact hlog ▸ hentry
  · rw [hlog]
    exact List.mem_cons_of_mem _ hentry

/-- Every call in flight stands in one of its own frames. -/
def AllBelong (g : Coop.Config (server p)) : Prop :=
  ∀ t c f, g.pool t = some (c, f) → Belongs c f

theorem AllBelong.step {g g' : Coop.Config (server p)} {e : Coop.Event (server p)}
    (hg : AllBelong g) (h : Coop.step g e = some g') : AllBelong g' := by
  intro u c' f' hu
  rcases server_step h with ⟨t, c, -, rfl⟩ | ⟨t, i, c, f, -, hran⟩
  · rcases Coop.pool_update_cases hu with ⟨-, heq⟩ | ⟨-, hold⟩
    · obtain ⟨rfl, rfl⟩ := Prod.mk.inj (Option.some.inj heq)
      exact belongs_start c
    · exact hg u c' f' hold
  · rcases hran.pool u c' f' hu with ⟨-, hold⟩ | ⟨-, rfl, hnext⟩
    · exact hg u c' f' hold
    · exact belongs_piece (hg t c' f hran.before) hnext

end

end KodyCelld.OAuth
