import KodyCelld.OAuth.ServerStore
import KodyCelld.Lib.Machine

namespace KodyCelld.OAuth

open KodyCelld.Lib OAuthStore

/-!
# What callers of the authorization server have seen

`Ledger` is the abstract side: token families as the pairs minted in them, in order, with what was
revoked.  It is written from the calls and their answers alone and never reads the store.

`Matches` connects the two: under every token text the store holds exactly the row the ledger
calls for.  `LedgerRefinement` proves that every operation keeps it.
-/

/-! ### The ledger -/

/-- A pair that was handed out, and when. -/
structure Pair where
  response : TokenResponse
  mintedAt : ℕ
  deriving DecidableEq, Repr

/-- The token of one kind in a pair. -/
def Pair.token (pair : Pair) : TokenKind → Text
  | .access => pair.response.accessToken
  | .refresh => pair.response.refreshToken

/-- A family: its pairs, oldest first.  `revoked` also when its grant was revoked under it. -/
structure Family where
  grantId : Text
  pairs : List Pair
  revoked : Bool
  deriving DecidableEq, Repr

structure GrantRecord where
  userId : Text
  clientId : Text
  revoked : Bool
  deriving DecidableEq, Repr

structure Ledger where
  /-- The kind, family and position in the family of every token handed out. -/
  minted : Text → Option (TokenKind × Text × ℕ)
  families : Text → Option Family
  grants : Text → Option GrantRecord
  /-- Access tokens that were revoked by themselves. -/
  revokedAccess : Text → Bool
  purgedAt : ℕ
  now : ℕ

namespace Ledger

def empty : Ledger where
  minted := fun _ => none
  families := fun _ => none
  grants := fun _ => none
  revokedAccess := fun _ => false
  purgedAt := 0
  now := 0

/-- A call that cleans up happened at `now`. -/
def purged (now : ℕ) (L : Ledger) : Ledger := { L with purgedAt := now }

def addGrant (id userId clientId : Text) (L : Ledger) : Ledger :=
  { L with grants := Function.update L.grants id (some ⟨userId, clientId, false⟩) }

/-- Puts the pair at position `n` of the family. -/
def addTokens (pair : Pair) (familyId : Text) (n : ℕ) (L : Ledger) : Ledger :=
  { L with
    minted := Function.update
      (Function.update L.minted pair.response.accessToken (some (.access, familyId, n)))
      pair.response.refreshToken (some (.refresh, familyId, n)) }

def addFamily (familyId grantId : Text) (pair : Pair) (L : Ledger) : Ledger :=
  addTokens pair familyId 0
    { L with families := Function.update L.families familyId (some ⟨grantId, [pair], false⟩) }

/-- A rotation: the pair becomes the last of the family. -/
def addPair (familyId : Text) (family : Family) (pair : Pair) (L : Ledger) : Ledger :=
  addTokens pair familyId family.pairs.length
    { L with
      families := Function.update L.families familyId
        (some { family with pairs := family.pairs ++ [pair] }) }

def revokeFamily (familyId : Text) (L : Ledger) : Ledger :=
  { L with families := fun f =>
      (L.families f).map fun F => if f = familyId then { F with revoked := true } else F }

def revokeAccess (token : Text) (L : Ledger) : Ledger :=
  { L with revokedAccess := Function.update L.revokedAccess token true }

def revokeGrant (grantId : Text) (L : Ledger) : Ledger :=
  { L with
    grants := fun g =>
      (L.grants g).map fun G => if g = grantId then { G with revoked := true } else G
    families := fun f =>
      (L.families f).map fun F => if F.grantId = grantId then { F with revoked := true } else F }

end Ledger

/-! ### Operations and their record -/

/-- A completed operation, with the random values it drew. -/
inductive Op where
  | purge
  | clientRegister (clientId : Text) (clientSecret : Option Text) (registration : ClientRegistration)
  | grantEnsure (newId userId clientId scope : Text)
  | tokensIssue (familyId : Text) (draw : TokenDraw) (grantId clientId scope : Text)
  | tokensRefresh (draw : TokenDraw) (refreshToken clientId : Text)
  | tokenRevoke (token clientId : Text)
  | grantRevoke (userId grantId : Text)

inductive Answer where
  | done
  | client (r : Except OAuthError ClientRow)
  | id (r : Except OAuthError Text)
  | pair (r : Except OAuthError TokenResponse)
  | revoked (r : Bool)
  | grantRevoked (r : Except OAuthError Unit)

variable (p : Platform)

/-- Runs one operation at one instant. -/
def runOp (now : ℕ) : Op → OAuthStore → Answer × OAuthStore
  | .purge, s => (.done, purge now s)
  | .clientRegister clientId clientSecret registration, s =>
    let r := clientRegister p now clientId clientSecret registration s
    (.client r.1, r.2)
  | .grantEnsure newId userId clientId scope, s =>
    let r := grantEnsure now newId userId clientId scope s
    (.id r.1, r.2)
  | .tokensIssue familyId draw grantId clientId scope, s =>
    let r := tokensIssue p now familyId draw grantId clientId scope s
    (.pair r.1, r.2)
  | .tokensRefresh draw refreshToken clientId, s =>
    let r := tokensRefresh p now draw refreshToken clientId s
    (.pair r.1, r.2)
  | .tokenRevoke token clientId, s =>
    let r := tokenRevoke p token clientId s
    (.revoked r.1, r.2)
  | .grantRevoke userId grantId, s =>
    let r := grantRevoke userId grantId s
    (.grantRevoked r.1, r.2)

namespace Ledger

/-- A refresh that was answered: a rotation when the pair is the one just drawn, else a replay. -/
def recordRefresh (now : ℕ) (draw : TokenDraw) (refreshToken : Text)
    (answer : Except OAuthError TokenResponse) (L : Ledger) : Ledger :=
  match L.minted refreshToken, answer with
  | some (_, f, _), .ok response =>
    match L.families f with
    | some F => if response.refreshToken = draw.refresh then L.addPair f F ⟨response, now⟩ else L
    | none => L
  | some (_, f, _), .error e => if e = reusedRefresh then L.revokeFamily f else L
  | none, _ => L

/-- What an operation and its answer add to the ledger. -/
def record (now : ℕ) (op : Op) (answer : Answer) (L : Ledger) : Ledger :=
  let L := { L with now := now }
  match op, answer with
  | .purge, _ => L.purged now
  | .clientRegister .., _ => L.purged now
  | .grantEnsure newId userId clientId _, .id (.ok id) =>
    if id = newId then L.addGrant id userId clientId else L
  | .tokensIssue familyId _ grantId _ _, .pair (.ok response) =>
    (L.purged now).addFamily familyId grantId ⟨response, now⟩
  | .tokensIssue .., _ => L.purged now
  | .tokensRefresh draw refreshToken _, .pair answer =>
    (L.purged now).recordRefresh now draw refreshToken answer
  | .tokenRevoke token _, .revoked true =>
    match L.minted token with
    | some (.refresh, f, _) => L.revokeFamily f
    | some (.access, _, _) => L.revokeAccess token
    | none => L
  | .grantRevoke _ grantId, .grantRevoked (.ok _) => L.revokeGrant grantId
  | _, _ => L

/-- The texts of a draw were never drawn before. -/
def fresh (draw : TokenDraw) (L : Ledger) : Bool :=
  (L.minted draw.access).isNone && (L.minted draw.refresh).isNone &&
    decide (draw.access ≠ draw.refresh)

end Ledger

/-- What holds of the operations that are run: time does not go back, random values are distinct,
    and callers pass what they were given: a grant is made for a registered client, and tokens are
    issued under a grant of their client (which may have been revoked since). -/
def allowed (w : OAuthStore × Ledger) (e : ℕ × Op) : Bool :=
  decide (w.2.now ≤ e.1) &&
  match e.2 with
  | .grantEnsure newId _ clientId _ =>
    (w.2.grants newId).isNone && (w.1.clients.find? clientId).isSome
  | .tokensIssue familyId draw grantId clientId _ =>
    (w.2.families familyId).isNone && w.2.fresh draw &&
      (match w.2.grants grantId with
        | some G => decide (G.clientId = clientId)
        | none => false)
  | .tokensRefresh draw _ _ => w.2.fresh draw
  | _ => true

/-- One operation, run and recorded. -/
def serverStep (w : OAuthStore × Ledger) (e : ℕ × Op) : Option (OAuthStore × Ledger) :=
  let r := runOp p e.1 e.2 w.1
  some (r.2, w.2.record e.1 e.2 r.1)

def emptyStore : OAuthStore where
  clients := ⟨[], List.nodup_nil⟩
  codes := ⟨[], List.nodup_nil⟩
  grants := ⟨[], List.nodup_nil⟩
  tokens := ⟨[], List.nodup_nil⟩

/-- What a token of a family allows to be seen of its row, with its snapshot opened. -/
structure TokenView where
  kind : TokenKind
  grantId : Text
  familyId : Text
  createdAt : ℕ
  expiresAt : ℕ
  replacedAt : Option ℕ
  replay : Option TokenResponse
  deriving DecidableEq, Repr

def rowView (row : TokenRow) : TokenView where
  kind := row.kind
  grantId := row.grantId
  familyId := row.familyId
  createdAt := row.createdAt
  expiresAt := row.expiresAt
  replacedAt := row.replacedAt
  replay := row.replayJson.bind p.openReplay

/-- The row the store holds under a token text. -/
def tokenView (s : OAuthStore) (token : Text) : Option TokenView :=
  (s.tokens.find? (p.sha256Hex token)).map (rowView p)

namespace Ledger

/-- The row the ledger calls for at position `n` of a family. -/
def pairView (L : Ledger) (token : Text) (kind : TokenKind) (familyId : Text) (F : Family) (n : ℕ)
    (pair : Pair) : Option TokenView :=
  if F.revoked = true ∨ pair.mintedAt + tokenTtlMs kind ≤ L.purgedAt then none
  else match kind with
    | .access =>
      if n + 1 = F.pairs.length ∧ L.revokedAccess token = false then
        some { kind := .access, grantId := F.grantId, familyId := familyId
               createdAt := pair.mintedAt, expiresAt := pair.mintedAt + tokenTtlMs .access
               replacedAt := none, replay := none }
      else none
    | .refresh =>
      some { kind := .refresh, grantId := F.grantId, familyId := familyId
             createdAt := pair.mintedAt, expiresAt := pair.mintedAt + tokenTtlMs .refresh
             replacedAt := (F.pairs[n + 1]?).map Pair.mintedAt
             replay :=
               if n + 2 = F.pairs.length then
                 (F.pairs[n + 1]?).bind fun next =>
                   if next.mintedAt + refreshReplayGraceMs ≤ L.purgedAt then none
                   else some next.response
               else none }

/-- The row the ledger calls for under a token text. -/
def view (L : Ledger) (token : Text) : Option TokenView :=
  match L.minted token with
  | none => none
  | some (kind, f, n) =>
    match L.families f with
    | none => none
    | some F =>
      match F.pairs[n]? with
      | none => none
      | some pair => L.pairView token kind f F n pair

/-- The user and client of a grant that was made and not revoked. -/
def liveGrant (L : Ledger) (grantId : Text) : Option (Text × Text) :=
  (L.grants grantId).bind fun G => if G.revoked then none else some (G.userId, G.clientId)

/-- The client presents an unexpired refresh token, at position `n` of a family that is not
    revoked, under a grant of its own. -/
structure Presents (L : Ledger) (now : ℕ) (token clientId f : Text) (n : ℕ) (F : Family)
    (pair : Pair) : Prop where
  minted : L.minted token = some (.refresh, f, n)
  family : L.families f = some F
  position : F.pairs[n]? = some pair
  grant : ∃ userId, L.liveGrant F.grantId = some (userId, clientId)
  live : F.revoked = false
  unexpired : now < pair.mintedAt + tokenTtlMs .refresh

/-- What holds of every ledger that was written. -/
structure Ok (L : Ledger) : Prop where
  minted : ∀ token kind f n, L.minted token = some (kind, f, n) →
    ∃ F pair, L.families f = some F ∧ F.pairs[n]? = some pair ∧ pair.token kind = token
  pairs : ∀ f F n pair, L.families f = some F → F.pairs[n]? = some pair →
    ∀ kind, L.minted (pair.token kind) = some (kind, f, n)
  nonempty : ∀ f F, L.families f = some F → F.pairs ≠ []
  grants : ∀ f F, L.families f = some F → ∃ G, L.grants F.grantId = some G
  /-- Under a grant that was already revoked, nothing is ever rotated. -/
  single : ∀ f F G, L.families f = some F → F.revoked = false → L.grants F.grantId = some G →
    G.revoked = true → F.pairs.length = 1
  revokedAccess : ∀ token, L.revokedAccess token = true → L.minted token ≠ none
  purgedAt : L.purgedAt ≤ L.now

end Ledger

/-- **The refinement.**  The store holds what the ledger calls for. -/
structure Matches (s : OAuthStore) (L : Ledger) : Prop where
  tokens : ∀ token, tokenView p s token = L.view token
  hashed : ∀ row ∈ s.tokens.rows, ∃ token, row.tokenHash = p.sha256Hex token
  grants : ∀ g, (s.grants.find? g).map (fun G => (G.userId, G.clientId)) = L.liveGrant g
  clients : ∀ g ∈ s.grants.rows, (s.clients.find? g.clientId).isSome

end KodyCelld.OAuth
