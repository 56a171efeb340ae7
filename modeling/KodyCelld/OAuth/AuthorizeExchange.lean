import KodyCelld.OAuth.Redirects
import KodyCelld.OAuth.RefreshRaces

namespace KodyCelld.OAuth

open KodyCelld.Lib OAuthStore

/-!
# From an authorize request to its tokens (`oauth/routes.ts`)

A client's authorize request is accepted and approved, its code is issued, and the client presents
the code at the token endpoint, with any other calls in between.

* `Flow` — the two requests, and the code between them;
* `Flow.Once`, `Flow.ClientKept` — the circumstances, and that no clean-up drops the client;
* `FlowInv` — the invariant, and `request_piece`, what one piece of the token request does;
* `authorized_honoured` — the request is answered with tokens exactly if the resource was left out
  or is the one that the code is for.
-/

/-! ### The two requests -/

/-- An authorize request with the client it was read for, what it was parsed to, the user who
    approved it, and what the client presents afterwards. -/
structure Flow where
  params : List (Text × Text)
  client : ClientRow
  authorize : AuthorizeRequest
  userId : Text
  code : Text
  issuedAt : ℕ
  credentials : ClientCredentials
  verifier : Text

/-- What `handleAuthorize` passes to `oauthCodeIssue`. -/
def Flow.input (w : Flow) : CodeInput where
  clientId := w.client.clientId
  userId := w.userId
  redirectUri := w.authorize.redirectUri
  codeChallenge := w.authorize.codeChallenge
  scope := w.authorize.scope
  resource := w.authorize.resource

/-- The token request repeats the texts of the authorize request. -/
def Flow.form (w : Flow) : ExchangeForm where
  code := some w.code
  redirectUri := paramOf w.params "redirect_uri"
  codeVerifier := some w.verifier
  resource := paramOf w.params "resource"

/-- The call presents the code. -/
def Call.carries (code : Text) : Call → Bool
  | .exchange _ form => decide (form.code = some code)
  | _ => false

section
variable {p : Platform}

/-- No call in flight presents the code, and none that returned did. -/
def Unpresented (code : Text) (g : Coop.Config (server p)) : Prop :=
  (∀ t c f, g.pool t = some (c, f) → c.carries code = false) ∧
    ∀ entry ∈ g.log, entry.1.carries code = false

/-- The authorize request is accepted in the state: the client is registered, and `w.authorize` is
    what its query is parsed to. -/
structure Flow.Accepted (w : Flow) (u : UrlParser) (issuer : Text) (g : Coop.Config (server p)) :
    Prop where
  registered : ∃ print body, parseClientRegistration u print body = .ok w.client.registration
  found : g.shared.store.clients.find? ((paramOf w.params "client_id").getD []) = some w.client
  accepted : parseAuthorizeRequest u w.params (some w.client) issuer = .ok w.authorize
  /-- The client knows its credentials and its verifier; -/
  authenticates : clientAuthenticate p w.credentials g.shared.store = .ok w.client
  verifies : verifyPkce p (some w.verifier) w.authorize.codeChallenge = true
  /-- the code is still to be drawn. -/
  code : w.code ≠ []
  undrawn : w.code ∉ g.shared.drawn
  unpresented : Unpresented w.code g

def Flow.Issued (w : Flow) (g : Coop.Config (server p)) : Prop :=
  (Call.codeIssue w.input, Ret.codeIssued (.ok w.code) w.issuedAt) ∈ g.log

/-- The code is presented once, by the client's token request, after it was issued and before it
    expires. -/
def Flow.Once (w : Flow) (g : Coop.Config (server p)) : Coop.Event (server p) → Prop
  | .call _ c => c.carries w.code = true →
      c = .exchange w.credentials w.form ∧ w.Issued g ∧ Unpresented w.code g
  | .resume _ i => ∀ row, g.shared.store.codes.find? (p.sha256Hex w.code) = some row →
      i.now < row.expiresAt

/-- The pieces that an exchange still runs. -/
def Frame.piecesLeft : Frame → ℕ
  | .exchange .. => 6
  | .authenticated .. => 5
  | .codeTaken .. => 4
  | .granted .. => 3
  | .mintAccess .. => 2
  | .mintRefresh .. => 1
  | _ => 0

/-- The token request was not made yet, or still has `n` pieces to run. -/
def Waits (code : Text) (n : ℕ) (g : Coop.Config (server p)) : Prop :=
  (∀ t c f, g.pool t = some (c, f) → c.carries code = true → n ≤ f.piecesLeft) ∧
    ∀ entry ∈ g.log, entry.1.carries code = false

/-- The piece starts with `purge`. -/
def Frame.purges : Frame → Bool
  | .clientRegister .. | .granted .. | .tokensRefresh .. | .purge => true
  | _ => false

/-- No clean-up drops the client before its token request has authenticated: it was used, is
    recent, or has a grant. -/
def Flow.ClientKept (w : Flow) (g : Coop.Config (server p)) : Coop.Event (server p) → Prop
  | .call .. => True
  | .resume t i => ∀ c f, g.pool t = some (c, f) → f.purges = true → Waits w.code 6 g →
      ∀ row ∈ g.shared.store.clients.rows, row.clientId = w.client.clientId →
        keepsClient i.now g.shared.store.grants.rows row = true

/-- The resource was left out, or is the one that every code is for. -/
def Flow.TargetHonoured (w : Flow) (issuer : Text) : Prop :=
  isBlank (paramOf w.params "resource") = true ∨
    paramOf w.params "resource" = some (issuer ++ mcpResourcePath)

/-- The token request can always go on to its end, and is answered with tokens exactly if its
    resource is honoured. -/
structure Flow.Honoured (w : Flow) (issuer : Text) (g : Coop.Config (server p)) : Prop where
  answers : ∀ entry ∈ g.log, entry.1.carries w.code = true →
    ∃ answer ticket, entry.2 = .exchanged answer ticket ∧
      ((∃ response, answer = .ok response) ↔ w.TargetHonoured issuer)
  progress : ∀ t c f i, g.pool t = some (c, f) → c.carries w.code = true →
    i.draw ∉ g.shared.drawn → ∃ g', Coop.step g (.resume t i) = some g' ∧
      ∀ c' f', g'.pool t = some (c', f') → f'.piecesLeft < f.piecesLeft

variable {s : OAuthStore}

/-! ### What authorization stores -/

/-- **Inversion.**  What an accepted query stores, in the texts of the query. -/
theorem parseAuthorizeRequest_eq_ok {u : UrlParser} {params : List (Text × Text)}
    {client : ClientRow} {issuer : Text} {a : AuthorizeRequest}
    (h : parseAuthorizeRequest u params (some client) issuer = .ok a) :
    a.resource = issuer ++ mcpResourcePath ∧
      ∀ text, paramOf params "redirect_uri" = some text → text = a.redirectUri := by
  unfold parseAuthorizeRequest at h
  dsimp only at h
  split at h
  · exact absurd h (by simp)
  · exact absurd h (by simp)
  · split_ifs at h
    rw [← Except.ok.inj h]
    refine ⟨rfl, fun text htext => ?_⟩
    show text = (requestedRedirect params client).getD []
    unfold requestedRedirect
    rw [htext]
    rfl

/-! ### What a piece keeps -/

/-- A code stays until it expires or is presented. -/
theorem piece_keepsCode {f : Frame} {i : Input} {hash : Text} {row : CodeRow}
    (h : s.codes.find? hash = some row) (hnow : i.now < row.expiresAt)
    (hother : ∀ client form code, f = .authenticated client form →
      exchangeCode client form = .ok code → p.sha256Hex code ≠ hash) :
    (piece p s f i).1.codes.find? hash = some row := by
  have hpurge : (purge i.now s).codes.find? hash = some row := by
    show (s.codes.filter fun c => decide (i.now < c.expiresAt)).find? hash = some row
    rw [Rows.find?_filter, h]
    simp [hnow]
  cases f with
  | clientRegister registration => exact hpurge
  | granted ticket grantId => exact hpurge
  | tokensRefresh token clientId => exact hpurge
  | purge => exact hpurge
  | codeHashed issuedAt input =>
    simp only [piece]
    unfold insertCode
    split
    · rename_i codes hcodes
      obtain ⟨hmem, hkey⟩ := Rows.find?_eq_some.mp h
      exact Rows.find?_eq_some.mpr ⟨(Rows.mem_insert? hcodes).mpr (.inl hmem), hkey⟩
    · exact h
  | authenticated client form =>
    simp only [piece]
    split
    · exact h
    · rename_i code hcode
      have htake : (takeCode i.now (p.sha256Hex code) s).2.codes.find? hash = some row := by
        have hne := hother client form code rfl hcode
        have hkept : (s.codes.filter fun c => decide (c.codeHash ≠ p.sha256Hex code)).find? hash =
            some row := by
          have hkey : row.codeHash = hash := (Rows.find?_eq_some.mp h).2
          rw [Rows.find?_filter, h]
          simp [hkey, hne.symm]
        unfold takeCode
        split
        · exact h
        · dsimp only
          split <;> exact hkept
      split <;> exact htake
  | _ =>
    simp only [piece]
    repeat' split
    all_goals simpa [touchClient, touchGrant, markReplaced, familyRevoke, deleteToken] using h

/-- The store has the client, with its secret and its registration. -/
def Knows (client : ClientRow) (s : OAuthStore) : Prop :=
  ∃ row, s.clients.find? client.clientId = some row ∧
    row.clientSecretHash = client.clientSecretHash ∧ row.registration = client.registration

theorem knows_touchClient {client : ClientRow} (h : Knows client s) (now : ℕ) (clientId : Text) :
    Knows client (touchClient now clientId s) := by
  obtain ⟨row, hrow, hhash, hreg⟩ := h
  refine ⟨if row.clientId = clientId then { row with lastUsedAt := some now } else row, ?_, ?_, ?_⟩
  · unfold touchClient
    rw [Rows.find?_map, hrow]
    rfl
  · split <;> exact hhash
  · split <;> exact hreg

theorem knows_purge {client : ClientRow} (h : Knows client s) {now : ℕ}
    (hkeeps : ∀ row ∈ s.clients.rows, row.clientId = client.clientId →
      keepsClient now s.grants.rows row = true) : Knows client (purge now s) := by
  obtain ⟨row, hrow, hsame⟩ := h
  obtain ⟨hmem, hkey⟩ := Rows.find?_eq_some.mp hrow
  refine ⟨row, ?_, hsame⟩
  show (s.clients.filter (keepsClient now s.grants.rows)).find? client.clientId = some row
  rw [Rows.find?_filter, hrow]
  simp [hkeeps row hmem hkey]

/-- A client stays until a clean-up drops it. -/
theorem piece_knows {client : ClientRow} (h : Knows client s) {f : Frame} {i : Input}
    (hkeeps : f.purges = true → ∀ row ∈ s.clients.rows, row.clientId = client.clientId →
      keepsClient i.now s.grants.rows row = true) : Knows client (piece p s f i).1 := by
  have hsame : ∀ {s' : OAuthStore}, s'.clients = s.clients → Knows client s' := by
    intro s' hclients
    unfold Knows
    rw [hclients]
    exact h
  cases f with
  | clientRegister registration => exact knows_purge h (hkeeps rfl)
  | granted ticket grantId => exact knows_touchClient (knows_purge h (hkeeps rfl)) ..
  | tokensRefresh token clientId => exact knows_purge h (hkeeps rfl)
  | purge => exact knows_purge h (hkeeps rfl)
  | sealing m token clientId fresh =>
    apply knows_touchClient
    exact hsame rfl
  | clientHashed createdAt registration =>
    simp only [piece]
    unfold insertClient
    dsimp only
    split
    · rename_i clients hclients
      obtain ⟨row, hrow, hrest⟩ := h
      obtain ⟨hmem, hkey⟩ := Rows.find?_eq_some.mp hrow
      refine ⟨row, ?_, hrest⟩
      exact Rows.find?_eq_some.mpr ⟨(Rows.mem_insert? hclients).mpr (.inl hmem), hkey⟩
    · exact h
  | _ =>
    apply hsame
    simp only [piece]
    repeat' split
    all_goals simp [touchGrant, familyRevoke, deleteToken]

/-! ### Random values -/

/-- The keys that a piece inserts are new: those in the store were drawn before. -/
structure KeysDrawn (g : Coop.Config (server p)) : Prop where
  grants : ∀ row ∈ g.shared.store.grants.rows, row.id ∈ g.shared.drawn
  tokens : ∀ row ∈ g.shared.store.tokens.rows,
    ∃ token ∈ g.shared.drawn, row.tokenHash = p.sha256Hex token

variable {g g' : Coop.Config (server p)} {t : ℕ} {c : Call} {f : Frame} {i : Input}

theorem KeysDrawn.ran (hinv : KeysDrawn g) (h : Ran p g g' t c f i) : KeysDrawn g' := by
  have hnew : f.draws = true → i.draw ∈ g'.shared.drawn := by
    intro hdraws
    rw [(h.drawn.fresh hdraws).2]
    exact List.mem_cons_self
  have hold : ∀ old ∈ g.shared.store.tokens.rows,
      ∃ token ∈ g'.shared.drawn, old.tokenHash = p.sha256Hex token := by
    intro old hmem
    obtain ⟨token, hdrawn, hhash⟩ := hinv.tokens old hmem
    exact ⟨token, h.drawn.subset hdrawn, hhash⟩
  constructor
  · intro row hrow
    rw [h.store] at hrow
    rcases piece_grants hrow with ⟨old, hmem, hid⟩ | ⟨hdraws, hid⟩
    · rw [← hid]
      exact h.drawn.subset (hinv.grants old hmem)
    · rw [hid]
      exact hnew hdraws
  · intro row hrow
    rw [h.store] at hrow
    rcases piece_tokens hrow with ⟨old, hmem, hsame⟩ | ⟨hdraws, hhash, -⟩ |
      ⟨m, token, clientId, fresh, -, old, hmem, -, rfl⟩
    · obtain ⟨token, hdrawn, hhash⟩ := hold old hmem
      refine ⟨token, hdrawn, ?_⟩
      rcases hsame with rfl | rfl
      · exact hhash
      · exact hhash
    · exact ⟨i.draw, hnew hdraws, hhash⟩
    · exact hold old hmem

theorem KeysDrawn.step (hinv : KeysDrawn g) {e : Coop.Event (server p)}
    (hstep : Coop.step g e = some g') : KeysDrawn g' := by
  rcases server_step hstep with ⟨t, c, -, rfl⟩ | ⟨t, i, c, f, -, h⟩
  · exact ⟨hinv.grants, hinv.tokens⟩
  · exact hinv.ran h

theorem KeysDrawn.start : KeysDrawn (freshServer p) where
  grants := fun _ h => absurd h List.not_mem_nil
  tokens := fun _ h => absurd h List.not_mem_nil

/-- A token that was never drawn can be inserted. -/
theorem KeysDrawn.insertToken_ok (hinv : KeysDrawn g) {token : Text}
    (hnew : token ∉ g.shared.drawn) (now : ℕ) (kind : TokenKind) (grantId familyId : Text) :
    (insertToken p now kind token grantId familyId g.shared.store).1 = .ok () := by
  have hnone : g.shared.store.tokens.find? (p.sha256Hex token) = none := by
    rw [Option.eq_none_iff_forall_ne_some]
    intro row hrow
    obtain ⟨hmem, hkey⟩ := Rows.find?_eq_some.mp hrow
    obtain ⟨token', hdrawn, hhash⟩ := hinv.tokens row hmem
    have hsame : token' = token := p.sha256Hex_injective (hhash.symm.trans hkey)
    exact hnew (hsame ▸ hdrawn)
  unfold insertToken
  split
  · rfl
  · rename_i hinsert
    exact absurd hinsert (Rows.insert?_ne_none hnone)

theorem KeysDrawn.grantEnsure_ok (hinv : KeysDrawn g) {newId : Text} (hnew : newId ∉ g.shared.drawn)
    (now : ℕ) (userId clientId scope : Text) :
    ∃ grantId, (grantEnsure now newId userId clientId scope g.shared.store).1 = .ok grantId := by
  unfold grantEnsure
  split
  · exact ⟨_, rfl⟩
  · have hnone : g.shared.store.grants.find? newId = none := by
      rw [Option.eq_none_iff_forall_ne_some]
      intro row hrow
      obtain ⟨hmem, hkey⟩ := Rows.find?_eq_some.mp hrow
      exact hnew (hkey ▸ hinv.grants row hmem)
    split
    · exact ⟨_, rfl⟩
    · rename_i hinsert
      exact absurd hinsert (Rows.insert?_ne_none hnone)

/-- What is known of the token request at its frame. -/
def Flow.At (w : Flow) (p : Platform) (issuer : Text) : Frame → Prop
  | .exchange credentials form => credentials = w.credentials ∧ form = w.form
  | .authenticated client form => form = w.form ∧ client.clientId = w.client.clientId ∧
      client.registration = w.client.registration
  | .codeTaken ticket form => form = w.form ∧ ticket.row = codeRow p w.issuedAt w.code w.input
  | .granted .. => w.TargetHonoured issuer
  | .mintAccess _ (.exchange _) => w.TargetHonoured issuer
  | .mintRefresh _ (.exchange _) _ => w.TargetHonoured issuer
  | _ => False

/-- What a piece of the token request leads to. -/
inductive Flow.Next (w : Flow) (p : Platform) (issuer : Text) : Frame ⊕ Ret → Prop
  | on (f : Frame) (known : w.At p issuer f) : Flow.Next w p issuer (.inl f)
  | returns (answer : Except OAuthError TokenResponse) (ticket : Option Ticket)
      (honoured : (∃ response, answer = .ok response) ↔ w.TargetHonoured issuer) :
      Flow.Next w p issuer (.inr (.exchanged answer ticket))

variable {w : Flow} {u : UrlParser} {issuer : Text} {g₀ : Coop.Config (server p)}

/-- Credentials stay good for as long as the store knows the client. -/
theorem clientAuthenticate_knows {credentials : ClientCredentials} {s₀ : OAuthStore}
    {client : ClientRow} (h : clientAuthenticate p credentials s₀ = .ok client)
    (hknows : Knows client s) :
    ∃ row, clientAuthenticate p credentials s = .ok row ∧ row.clientId = client.clientId ∧
      row.registration = client.registration := by
  obtain ⟨row, hrow, hhash, hreg⟩ := hknows
  have hkey : row.clientId = client.clientId := (Rows.find?_eq_some.mp hrow).2
  refine ⟨row, ?_, hkey, hreg⟩
  unfold clientAuthenticate at h ⊢
  split at h
  · exact absurd h (by simp)
  rename_i hid
  rw [if_neg hid]
  split at h
  · exact absurd h (by simp)
  rename_i row₀ hrow₀
  have hid₀ : row₀.clientId = credentials.clientId.getD [] := (Rows.find?_eq_some.mp hrow₀).2
  -- both stores are asked for the client's id, and hold the same secret
  have hsame : row₀ = client := by
    split at h
    · split_ifs at h
      exact Except.ok.inj h
    · split at h
      · exact Except.ok.inj h
      · exact absurd h (by simp)
  subst hsame
  rw [← hid₀, hrow]
  dsimp only
  rw [hhash, hreg]
  split at h
  · rename_i hash hsome
    split_ifs at h with hblank hmethod hsecret
    simp only [if_neg hblank, if_neg hmethod, if_neg hsecret]
  · rename_i hnone
    split at h
    · rename_i hblank
      simp only [if_pos hblank]
    · exact absurd h (by simp)

/-- The code is found as it was issued, and passes the checks on its record. -/
theorem Flow.Accepted.takes (ha : w.Accepted u issuer g₀) {client : ClientRow} {now : ℕ}
    (hid : client.clientId = w.client.clientId)
    (hreg : client.registration = w.client.registration)
    (hrow : s.codes.find? (p.sha256Hex w.code) = some (codeRow p w.issuedAt w.code w.input))
    (hnow : now < (codeRow p w.issuedAt w.code w.input).expiresAt) :
    exchangeCode client w.form = .ok w.code ∧
      checkRecord client w.form (takeCode now (p.sha256Hex w.code) s).1 =
        .ok (codeRow p w.issuedAt w.code w.input) := by
  constructor
  · obtain ⟨print, body, hparsed⟩ := ha.registered
    have hgrant := (parseClientRegistration_eq_ok hparsed).1
    have hcode : isBlank w.form.code = false := by
      show w.code.isEmpty = false
      rw [List.isEmpty_eq_false_iff]
      exact ha.code
    unfold exchangeCode
    rw [hreg, if_neg (not_not.mpr hgrant), hcode]
    rfl
  · have htaken : (takeCode now (p.sha256Hex w.code) s).1 =
        some (codeRow p w.issuedAt w.code w.input) := by
      unfold takeCode
      rw [hrow]
      dsimp only
      rw [if_neg (by omega)]
    have hredirect : (!isBlank w.form.redirectUri &&
        decide (w.form.redirectUri ≠ some w.authorize.redirectUri)) = false := by
      cases htext : paramOf w.params "redirect_uri" with
      | none =>
        have hblank : isBlank w.form.redirectUri = true := by
          show isBlank (paramOf w.params "redirect_uri") = true
          rw [htext]
          rfl
        rw [hblank]
        rfl
      | some text =>
        have hsame : w.form.redirectUri = some w.authorize.redirectUri := by
          rw [← (parseAuthorizeRequest_eq_ok ha.accepted).2 text htext]
          exact htext
        rw [hsame]
        simp
    rw [htaken]
    unfold checkRecord
    show (if w.client.clientId ≠ client.clientId then _ else if (!isBlank w.form.redirectUri &&
      decide (w.form.redirectUri ≠ some w.authorize.redirectUri)) = true then _ else _) = _
    rw [hid, if_neg (not_not.mpr rfl), hredirect]
    rfl

/-- The verifier passes, and the resource does exactly if it is honoured. -/
theorem Flow.Accepted.checkVerifier_iff (ha : w.Accepted u issuer g₀) :
    checkVerifier p w.form (codeRow p w.issuedAt w.code w.input) = .ok () ↔
      w.TargetHonoured issuer := by
  have hresource : w.authorize.resource = issuer ++ mcpResourcePath :=
    (parseAuthorizeRequest_eq_ok ha.accepted).1
  have hverifies : verifyPkce p w.form.codeVerifier
      (codeRow p w.issuedAt w.code w.input).codeChallenge = true := ha.verifies
  unfold checkVerifier
  rw [hverifies, if_neg (by simp)]
  show (if (!isBlank (paramOf w.params "resource") &&
      decide (paramOf w.params "resource" ≠ some w.authorize.resource)) = true then _ else _) = _ ↔ _
  rw [hresource]
  unfold Flow.TargetHonoured
  split
  · rename_i hrefused
    rw [Bool.and_eq_true, Bool.not_eq_true', decide_eq_true_eq] at hrefused
    constructor
    · intro h
      exact absurd h (by simp)
    · rintro (hblank | hsame)
      · exact absurd (hblank.symm.trans hrefused.1) (by simp)
      · exact absurd hsame hrefused.2
  · rename_i hpasses
    rw [Bool.and_eq_true, Bool.not_eq_true', decide_eq_true_eq, not_and_or, Bool.not_eq_false,
      not_not] at hpasses
    exact iff_of_true rfl hpasses

/-- **Piece lemma.**  A piece of the token request leads to the next one, or to the answer. -/
theorem request_piece (ha : w.Accepted u issuer g₀) (hkeys : KeysDrawn g)
    (hat : w.At p issuer f) (hdraw : f.draws = true → i.draw ∉ g.shared.drawn)
    (hknows : f.piecesLeft = 6 → Knows w.client g.shared.store)
    (hstored : f.piecesLeft = 5 → g.shared.store.codes.find? (p.sha256Hex w.code) =
      some (codeRow p w.issuedAt w.code w.input))
    (hnow : ∀ row, g.shared.store.codes.find? (p.sha256Hex w.code) = some row →
      i.now < row.expiresAt) : w.Next p issuer (piece p g.shared.store f i).2 := by
  cases f with
  | exchange credentials form =>
    obtain ⟨rfl, rfl⟩ := hat
    obtain ⟨row, hok, hid, hreg⟩ := clientAuthenticate_knows ha.authenticates (hknows rfl)
    simp only [piece, hok]
    exact .on _ ⟨rfl, hid, hreg⟩
  | authenticated client form =>
    obtain ⟨rfl, hid, hreg⟩ := hat
    have hrow := hstored rfl
    obtain ⟨hcode, hrecord⟩ := ha.takes hid hreg hrow (hnow _ hrow)
    simp only [piece, hcode, hrecord]
    exact .on _ ⟨rfl, rfl⟩
  | codeTaken ticket form =>
    obtain ⟨rfl, hrow⟩ := hat
    have hiff := ha.checkVerifier_iff
    rw [← hrow] at hiff
    simp only [piece]
    split
    · rename_i e herror
      refine .returns _ _ (iff_of_false ?_ ?_)
      · rintro ⟨response, hresponse⟩
        exact absurd hresponse (by simp)
      · intro htarget
        exact absurd (herror.symm.trans (hiff.mpr htarget)) (by simp)
    · rename_i hchecked
      obtain ⟨grantId, hgrant⟩ := hkeys.grantEnsure_ok (hdraw rfl) i.now ticket.row.userId
        ticket.client.clientId ticket.row.scope
      simp only [hgrant]
      exact .on _ (hiff.mp hchecked)
  | granted ticket grantId => exact .on _ hat
  | mintAccess m goal =>
    cases goal with
    | exchange ticket =>
      simp only [piece, hkeys.insertToken_ok (hdraw rfl)]
      exact .on _ hat
    | rotation token clientId => exact hat.elim
  | mintRefresh m goal access =>
    cases goal with
    | exchange ticket =>
      simp only [piece, hkeys.insertToken_ok (hdraw rfl)]
      exact .returns _ _ (iff_of_true ⟨_, rfl⟩ hat)
    | rotation token clientId => exact hat.elim
  | _ => exact hat.elim

/-! ### The pieces left -/

/-- Every piece of an exchange leaves fewer to run. -/
theorem piecesLeft_lt {credentials : ClientCredentials} {form : ExchangeForm} {f' : Frame}
    (hbelong : Belongs (.exchange credentials form) f) (h : (piece p s f i).2 = .inl f') :
    f'.piecesLeft < f.piecesLeft := by
  cases f with
  | exchange credentials form =>
    simp only [piece] at h
    split at h
    · exact absurd h (by simp)
    obtain rfl := Sum.inl.inj h
    show 5 < 6
    omega
  | authenticated client form =>
    simp only [piece] at h
    split at h
    · exact absurd h (by simp)
    split at h
    · exact absurd h (by simp)
    obtain rfl := Sum.inl.inj h
    show 4 < 5
    omega
  | codeTaken ticket form =>
    simp only [piece] at h
    split at h
    · exact absurd h (by simp)
    split at h
    · exact absurd h (by simp)
    obtain rfl := Sum.inl.inj h
    show 3 < 4
    omega
  | granted ticket grantId =>
    obtain rfl := Sum.inl.inj h
    show 2 < 3
    omega
  | mintAccess m goal =>
    simp only [piece] at h
    split at h
    · exact absurd h (by simp)
    obtain rfl := Sum.inl.inj h
    show 1 < 2
    omega
  | mintRefresh m goal access =>
    simp only [piece] at h
    split at h
    · exact absurd h (by simp)
    cases goal with
    | exchange ticket => exact absurd h (by simp [MintFor.done])
    | rotation token clientId => exact absurd hbelong (by simp [Belongs, Mints])
  | _ => exact absurd hbelong (by simp [Belongs])

theorem carries_exchange {code : Text} (h : c.carries code = true) :
    ∃ credentials form, c = .exchange credentials form ∧ form.code = some code := by
  unfold Call.carries at h
  split at h
  · rename_i credentials form
    exact ⟨credentials, form, rfl, of_decide_eq_true h⟩
  · exact absurd h (by simp)

/-- A request that still waits after one of its pieces had more pieces to run before it. -/
theorem Waits.piecesLeft {code : Text} {n : ℕ} (hwaits : Waits code n g') (hbelong : AllBelong g)
    (hstep : Coop.step g (.resume t i) = some g') (h : Ran p g g' t c f i)
    (hcarries : c.carries code = true) : n < f.piecesLeft := by
  obtain ⟨credentials, form, rfl, -⟩ := carries_exchange hcarries
  rcases Coop.step_ran hstep with ⟨u, c', he, -⟩ | ⟨u, i', c', f', out, he, hran⟩
  · exact absurd he (by simp)
  · obtain ⟨rfl, rfl⟩ := Coop.Event.resume.inj he
    obtain ⟨rfl, rfl⟩ := Prod.mk.inj (Option.some.inj (hran.before.symm.trans h.before))
    rcases hran.own with ⟨f', -, hpool, -⟩ | ⟨r, -, -, hlog⟩
    · rcases h.pool t _ f' hpool with ⟨hne, -⟩ | ⟨-, -, hnext⟩
      · exact absurd rfl hne
      · have hleft := hwaits.1 t _ f' hpool hcarries
        have hlt := piecesLeft_lt (hbelong t _ _ h.before) hnext
        omega
    · -- a request that has returned waits no more
      have hnot := hwaits.2 (_, r) (hlog ▸ List.mem_cons_self)
      exact absurd (hcarries.symm.trans hnot) (by simp)

/-- A request that waits after a step waited before it. -/
theorem Waits.before {code : Text} {n : ℕ} (hwaits : Waits code n g') (hbelong : AllBelong g)
    {e : Coop.Event (server p)} (hstep : Coop.step g e = some g') : Waits code n g := by
  have hlog : ∀ entry ∈ g.log, entry ∈ g'.log := by
    intro entry hentry
    rcases server_step hstep with ⟨t, c, -, rfl⟩ | ⟨t, i, c, f, -, h⟩
    · exact hentry
    · exact h.log_subset hentry
  refine ⟨fun u c' f' hu hcarries => ?_, fun entry hentry => hwaits.2 entry (hlog entry hentry)⟩
  by_cases hthread : u = e.thread
  · rcases Coop.step_ran hstep with ⟨t, c, rfl, hfree, -⟩ | ⟨t, i, c, f, out, rfl, -⟩
    · obtain rfl : u = t := hthread
      exact absurd (hu.symm.trans hfree) (by simp)
    · rcases server_step hstep with ⟨t', c₁, he, -⟩ | ⟨t', i', c₁, f₁, he, h⟩
      · exact absurd he (by simp)
      · obtain ⟨rfl, rfl⟩ := Coop.Event.resume.inj he
        obtain rfl : u = t := hthread
        obtain ⟨rfl, rfl⟩ := Prod.mk.inj (Option.some.inj (h.before.symm.trans hu))
        have hlt := hwaits.piecesLeft hbelong hstep h hcarries
        exact hlt.le
  · apply hwaits.1 u c' f' _ hcarries
    rw [Coop.pool_of_step hstep hthread]
    exact hu

/-! ### The invariant -/

structure FlowInv (w : Flow) (issuer : Text) (g : Coop.Config (server p)) : Prop where
  codes : CodeInv p g
  keys : KeysDrawn g
  request : ∀ t c f, g.pool t = some (c, f) → c.carries w.code = true →
    c = .exchange w.credentials w.form ∧ w.Issued g ∧ w.At p issuer f
  /-- The code is presented by one call, -/
  single : ∀ t t' c c' f f', g.pool t = some (c, f) → g.pool t' = some (c', f') →
    c.carries w.code = true → c'.carries w.code = true → t = t'
  /-- which is answered as it should be, and not followed by another one. -/
  answers : ∀ entry ∈ g.log, entry.1.carries w.code = true →
    (∃ answer ticket, entry.2 = .exchanged answer ticket ∧
      ((∃ response, answer = .ok response) ↔ w.TargetHonoured issuer)) ∧
    ∀ t c f, g.pool t = some (c, f) → c.carries w.code = false
  /-- Until it has authenticated, the client is there; -/
  knows : Waits w.code 6 g → Knows w.client g.shared.store
  /-- until it has taken the code, the code is. -/
  stored : w.Issued g → Waits w.code 5 g → g.shared.store.codes.find? (p.sha256Hex w.code) =
    some (codeRow p w.issuedAt w.code w.input)

theorem FlowInv.start (ha : w.Accepted u issuer g₀) (hcodes : CodeInv p g₀) (hkeys : KeysDrawn g₀) :
    FlowInv w issuer g₀ where
  codes := hcodes
  keys := hkeys
  request := fun t c f hpool hcarries =>
    absurd (hcarries.symm.trans (ha.unpresented.1 t c f hpool)) (by simp)
  single := fun t _ c _ f _ hpool _ hcarries _ =>
    absurd (hcarries.symm.trans (ha.unpresented.1 t c f hpool)) (by simp)
  answers := fun entry hentry hcarries =>
    absurd (hcarries.symm.trans (ha.unpresented.2 entry hentry)) (by simp)
  knows := fun _ => by
    refine ⟨w.client, ?_, rfl, rfl⟩
    obtain ⟨hmem, -⟩ := Rows.find?_eq_some.mp ha.found
    exact Rows.find?_eq_some.mpr ⟨hmem, rfl⟩
  stored := fun hissued => absurd (hcodes.issued _ _ _ hissued) ha.undrawn

/-- A call that is made. -/
theorem FlowInv.call (hinv : FlowInv w issuer g)
    (hstep : Coop.step g (.call t c) = some g') (honce : w.Once g (.call t c)) :
    FlowInv w issuer g' := by
  have hbelong := hinv.codes.belong
  have hcodes := hinv.codes.step hstep
  have hkeys := hinv.keys.step hstep
  have hwaits : ∀ {n}, Waits w.code n g' → Waits w.code n g :=
    fun hw => hw.before hbelong hstep
  rcases server_step hstep with ⟨t', c', he, rfl⟩ | ⟨t', i, c', f, he, -⟩
  · obtain ⟨rfl, rfl⟩ := Coop.Event.call.inj he
    refine ⟨hcodes, hkeys, fun v c₁ f₁ hv hcarries => ?_, fun v v' c₁ c₂ f₁ f₂ hv hv' h₁ h₂ => ?_,
      fun entry hentry hcarries => ?_, fun hw => hinv.knows (hwaits hw),
      fun hissued hw => hinv.stored hissued (hwaits hw)⟩
    · rcases Coop.pool_update_cases hv with ⟨-, heq⟩ | ⟨-, hold⟩
      · obtain ⟨rfl, rfl⟩ := Prod.mk.inj (Option.some.inj heq)
        obtain ⟨rfl, hissued, -⟩ := honce hcarries
        exact ⟨rfl, hissued, rfl, rfl⟩
      · exact hinv.request v c₁ f₁ hold hcarries
    · -- while a call presents the code, no other one is made that does
      have hother : ∀ {v c₁ f₁}, g.pool v = some (c₁, f₁) → c₁.carries w.code = true →
          c.carries w.code = true → False := by
        intro v c₁ f₁ hv h₁ hc
        obtain ⟨-, -, hnone, -⟩ := honce hc
        exact absurd (h₁.symm.trans (hnone v c₁ f₁ hv)) (by simp)
      rcases Coop.pool_update_cases hv with ⟨hvt, heq⟩ | ⟨-, hold⟩
      · obtain ⟨rfl, -⟩ := Prod.mk.inj (Option.some.inj heq)
        rcases Coop.pool_update_cases hv' with ⟨hvt', -⟩ | ⟨-, hold'⟩
        · exact hvt.trans hvt'.symm
        · exact (hother hold' h₂ h₁).elim
      · rcases Coop.pool_update_cases hv' with ⟨-, heq⟩ | ⟨-, hold'⟩
        · obtain ⟨rfl, -⟩ := Prod.mk.inj (Option.some.inj heq)
          exact (hother hold h₁ h₂).elim
        · exact hinv.single v v' c₁ c₂ f₁ f₂ hold hold' h₁ h₂
    · obtain ⟨hanswer, hnone⟩ := hinv.answers entry hentry hcarries
      refine ⟨hanswer, fun v c₁ f₁ hv => ?_⟩
      rcases Coop.pool_update_cases hv with ⟨-, heq⟩ | ⟨-, hold⟩
      · obtain ⟨rfl, -⟩ := Prod.mk.inj (Option.some.inj heq)
        rw [Bool.eq_false_iff]
        intro hc
        obtain ⟨-, -, -, hnot⟩ := honce hc
        exact absurd (hcarries.symm.trans (hnot entry hentry)) (by simp)
      · exact hnone v c₁ f₁ hold
  · exact absurd he (by simp)

/-- The code is in the store after a piece, unless the piece was the one that takes it. -/
theorem FlowInv.stored_step (hinv : FlowInv w issuer g)
    (hstep : Coop.step g (.resume t i) = some g') (honce : w.Once g (.resume t i))
    (h : Ran p g g' t c f i) (hissued : w.Issued g') (hwaits : Waits w.code 5 g') :
    g'.shared.store.codes.find? (p.sha256Hex w.code) =
      some (codeRow p w.issuedAt w.code w.input) := by
  have hbelong := hinv.codes.belong
  rw [h.store]
  rcases h.log_cases hissued with hold | ⟨hc, hr⟩
  · have hrow := hinv.stored hold (hwaits.before hbelong hstep)
    apply piece_keepsCode hrow (honce _ hrow)
    intro client form code hf hcode hhash
    obtain rfl : code = w.code := p.sha256Hex_injective hhash
    -- the frame that takes the code is the request's
    have hcarries : c.carries w.code = true := by
      have hb := hbelong t c f h.before
      rw [hf] at hb
      obtain ⟨credentials, rfl⟩ := hb
      exact decide_eq_true (exchangeCode_ok hcode)
    have hleft := hwaits.piecesLeft hbelong hstep h hcarries
    rw [hf] at hleft
    exact absurd hleft (by simp [Frame.piecesLeft])
  · obtain ⟨⟨input, rfl⟩, hdraw⟩ := piece_codeIssued hr
    have hb := hbelong t c _ h.before
    have hinput : w.input = input := Call.codeIssue.inj (hc.trans hb)
    rw [← hinput] at hr ⊢
    simp only [piece, Sum.inr.injEq, Ret.codeIssued.injEq] at hr ⊢
    rw [← hdraw] at hr ⊢
    unfold insertCode at hr ⊢
    split
    · rename_i codes hcodes
      rw [Rows.find?_insert? hcodes]
      exact if_pos rfl
    · rename_i hnone
      rw [hnone] at hr
      exact absurd hr.1 (by simp)

/-- A piece of a call. -/
theorem FlowInv.resume (ha : w.Accepted u issuer g₀) (hinv : FlowInv w issuer g)
    (hstep : Coop.step g (.resume t i) = some g') (honce : w.Once g (.resume t i))
    (hkept : w.ClientKept g (.resume t i)) : FlowInv w issuer g' := by
  have hbelong := hinv.codes.belong
  have hcodes := hinv.codes.step hstep
  have hkeys := hinv.keys.step hstep
  rcases server_step hstep with ⟨t', c, he, -⟩ | ⟨t', i', c, f, he, h⟩
  · exact absurd he (by simp)
  · obtain ⟨rfl, rfl⟩ := Coop.Event.resume.inj he
    -- what the piece leads to, where it is one of the request
    have hnext : c.carries w.code = true →
        w.Next p issuer (piece p g.shared.store f i).2 := by
      intro hcarries
      obtain ⟨-, hissued, hat⟩ := hinv.request t c f h.before hcarries
      have hwaits : ∀ n, f.piecesLeft = n → Waits w.code n g := by
        intro n hn
        constructor
        · intro v c' f' hv hcarries'
          obtain rfl : t = v := hinv.single t v c c' f f' h.before hv hcarries hcarries'
          obtain ⟨-, rfl⟩ := Prod.mk.inj (Option.some.inj (h.before.symm.trans hv))
          omega
        · intro entry hentry
          rw [Bool.eq_false_iff]
          intro hlogged
          have hnone := (hinv.answers entry hentry hlogged).2 t c f h.before
          exact absurd (hcarries.symm.trans hnone) (by simp)
      exact request_piece ha hinv.keys hat (fun hdraws => (h.drawn.fresh hdraws).1)
        (fun hn => hinv.knows (hwaits 6 hn)) (fun hn => hinv.stored hissued (hwaits 5 hn)) honce
    -- the calls that present the code are the ones before
    have hpool : ∀ {v c' f'}, g'.pool v = some (c', f') → c'.carries w.code = true →
        ∃ f₁, g.pool v = some (c', f₁) := by
      intro v c' f' hv _
      rcases h.pool v c' f' hv with ⟨-, hold⟩ | ⟨rfl, rfl, -⟩
      · exact ⟨f', hold⟩
      · exact ⟨f, h.before⟩
    refine ⟨hcodes, hkeys, fun v c' f' hv hcarries => ?_,
      fun v v' c₁ c₂ f₁ f₂ hv hv' h₁ h₂ => ?_, fun entry hentry hcarries => ?_, fun hw => ?_,
      fun hissued hw => hinv.stored_step hstep honce h hissued hw⟩
    · rcases h.pool v c' f' hv with ⟨-, hold⟩ | ⟨rfl, rfl, hout⟩
      · obtain ⟨hc, hissued, hat⟩ := hinv.request v c' f' hold hcarries
        exact ⟨hc, h.log_subset hissued, hat⟩
      · obtain ⟨hc, hissued, -⟩ := hinv.request v c' f h.before hcarries
        refine ⟨hc, h.log_subset hissued, ?_⟩
        have hn := hnext hcarries
        rw [hout] at hn
        cases hn with
        | on _ hat => exact hat
    · obtain ⟨f₁', hold⟩ := hpool hv h₁
      obtain ⟨f₂', hold'⟩ := hpool hv' h₂
      exact hinv.single v v' c₁ c₂ f₁' f₂' hold hold' h₁ h₂
    · rcases h.log_cases hentry with hold | ⟨hc, hr⟩
      · obtain ⟨hanswer, hnone⟩ := hinv.answers entry hold hcarries
        refine ⟨hanswer, fun v c' f' hv => ?_⟩
        rw [Bool.eq_false_iff]
        intro hcarries'
        obtain ⟨f₁, hv'⟩ := hpool hv hcarries'
        exact absurd (hcarries'.symm.trans (hnone v c' f₁ hv')) (by simp)
      · rw [hc] at hcarries
        have hn := hnext hcarries
        rw [hr] at hn
        constructor
        · cases hr' : entry.2 with
          | exchanged answer ticket =>
            rw [hr'] at hn
            cases hn with
            | returns _ _ hiff => exact ⟨answer, ticket, rfl, hiff⟩
          | _ =>
            rw [hr'] at hn
            cases hn
        · intro v c' f' hv
          rw [Bool.eq_false_iff]
          intro hcarries'
          rcases h.pool v c' f' hv with ⟨hne, hold⟩ | ⟨-, -, hout⟩
          · exact hne (hinv.single v t c' c f' f hold h.before hcarries' hcarries)
          · exact absurd (hr.symm.trans hout) (by simp)
    · rw [h.store]
      have hw' := hw.before hbelong hstep
      exact piece_knows (hinv.knows hw') fun hpurges => hkept c f h.before hpurges hw'

/-- **Run lemma.** -/
theorem flowInv_of_reaches (ha : w.Accepted u issuer g₀) (hcodes : CodeInv p g₀)
    (hkeys : KeysDrawn g₀)
    (h : Reaches Coop.step (fun g e => w.Once g e ∧ w.ClientKept g e) g₀ g) :
    FlowInv w issuer g := by
  refine h.invariant (FlowInv w issuer) (fun g e g' hinv hguard hstep => ?_) (.start ha hcodes hkeys)
  cases e with
  | call t c => exact hinv.call hstep hguard.1
  | resume t i => exact hinv.resume ha hstep hguard.1 hguard.2

/-- **What authorize accepts, the token endpoint honours**, in every run in which no clean-up drops
    the client, exactly if the resource was left out or is the one that the code is for. -/
theorem authorized_honoured (hreach : Reaches Coop.step (fun _ _ => True) (freshServer p) g₀)
    (ha : w.Accepted u issuer g₀)
    (hrun : Reaches Coop.step (fun g e => w.Once g e ∧ w.ClientKept g e) g₀ g) :
    w.Honoured issuer g := by
  have hkeys : KeysDrawn g₀ :=
    hreach.invariant KeysDrawn (fun _ _ _ hkeys _ hstep => hkeys.step hstep) .start
  have hinv := flowInv_of_reaches ha (codeInv_of_reaches hreach) hkeys hrun
  refine ⟨fun entry hentry hcarries => (hinv.answers entry hentry hcarries).1,
    fun t c f i hpool hcarries hnew => ?_⟩
  obtain ⟨credentials, form, rfl, -⟩ := carries_exchange hcarries
  have hruns : ∃ s', OAuth.resume p g.shared f i = some (s', (piece p g.shared.store f i).2) := by
    unfold OAuth.resume
    rw [if_neg hnew]
    split
    · exact ⟨_, rfl⟩
    · exact ⟨_, rfl⟩
  obtain ⟨s', hs'⟩ := hruns
  cases hout : (piece p g.shared.store f i).2 with
  | inl f' =>
    have hlt := piecesLeft_lt (hinv.codes.belong t _ f hpool) hout
    refine ⟨_, by simp only [Coop.step, hpool, hs', hout]; rfl, fun c' f₁ hafter => ?_⟩
    rcases Coop.pool_update_cases hafter with ⟨-, heq⟩ | ⟨hne, -⟩
    · obtain ⟨-, rfl⟩ := Prod.mk.inj (Option.some.inj heq)
      exact hlt
    · exact absurd rfl hne
  | inr r =>
    refine ⟨_, by simp only [Coop.step, hpool, hs', hout]; rfl, fun c' f₁ hafter => ?_⟩
    rcases Coop.pool_update_cases hafter with ⟨-, heq⟩ | ⟨hne, -⟩
    · exact absurd heq (by simp)
    · exact absurd rfl hne

end

/-! ### Three runs -/

/-- `Flow.Once`, where only the threads below `N` are used. -/
def onceCheck (w : Flow) (N : ℕ) (g : Coop.Config (server p)) : Coop.Event (server p) → Bool
  | .call _ c => !c.carries w.code || (decide (c = Call.exchange w.credentials w.form) &&
      decide ((Call.codeIssue w.input, Ret.codeIssued (.ok w.code) w.issuedAt) ∈ g.log) &&
      ((List.range N).all fun t => (g.pool t).all fun call => !call.1.carries w.code) &&
      g.log.all fun entry => !entry.1.carries w.code)
  | .resume _ i => (g.shared.store.codes.find? (p.sha256Hex w.code)).all fun row =>
      decide (i.now < row.expiresAt)

/-- No clean-up at that time would drop the client. -/
def keptCheck (w : Flow) (g : Coop.Config (server p)) : Coop.Event (server p) → Bool
  | .call .. => true
  | .resume _ i => g.shared.store.clients.rows.all fun row =>
      !decide (row.clientId = w.client.clientId) ||
        keepsClient i.now g.shared.store.grants.rows row

theorem once_of_check {w : Flow} {N : ℕ} {g : Coop.Config (server p)} {e : Coop.Event (server p)}
    (h : onceCheck w N g e = true) (hidle : ∀ t, N ≤ t → g.pool t = none) : w.Once g e := by
  cases e with
  | call t c =>
    intro hcarries
    simp only [onceCheck] at h
    rw [hcarries, Bool.not_true, Bool.false_or, Bool.and_eq_true, Bool.and_eq_true,
      Bool.and_eq_true, decide_eq_true_eq, decide_eq_true_eq] at h
    obtain ⟨⟨⟨hc, hissued⟩, hpool⟩, hlog⟩ := h
    refine ⟨hc, hissued, fun v c' f hv => ?_, fun entry hentry => ?_⟩
    · by_cases hN : N ≤ v
      · exact absurd (hv.symm.trans (hidle v hN)) (by simp)
      · have hall := List.all_eq_true.mp hpool v (List.mem_range.mpr (by omega))
        rw [hv, Option.all_some, Bool.not_eq_true'] at hall
        exact hall
    · have hall := List.all_eq_true.mp hlog entry hentry
      rwa [Bool.not_eq_true'] at hall
  | resume t i =>
    intro row hrow
    simp only [onceCheck] at h
    rw [hrow, Option.all_some, decide_eq_true_eq] at h
    exact h

theorem clientKept_of_check {w : Flow} {g : Coop.Config (server p)} {e : Coop.Event (server p)}
    (h : keptCheck w g e = true) : w.ClientKept g e := by
  cases e with
  | call t c => trivial
  | resume t i =>
    intro c f _ _ _ row hrow hid
    have hall := List.all_eq_true.mp h row hrow
    rw [decide_eq_true hid, Bool.not_true, Bool.false_or] at hall
    exact hall

theorem ok_of_toOption {ε α : Type} {x : Except ε α} {a : α} (h : x.toOption = some a) :
    x = .ok a := by
  cases x with
  | error e => exact absurd h (by simp [Except.toOption])
  | ok b => exact congrArg Except.ok (Option.some.inj h)

def appRegistration : ClientRegistration where
  clientName := "example.com"
  redirectUris := ["https://example.com/cb"]
  tokenEndpointAuthMethod := .none
  grantTypes := ["authorization_code", "refresh_token"]
  clientUri := none
  logoUri := none
  softwareId := none
  softwareVersion := none

/-- A server on which the client has registered. -/
def appServer : Coop.Config (server clearPlatform) :=
  (exec Coop.step (freshServer clearPlatform)
    (alone 0 (.clientRegister appRegistration) [⟨0, [], []⟩, ⟨0, "c", []⟩])).getD
    (freshServer clearPlatform)

def appClient : ClientRow := ⟨"c", none, appRegistration, 0, none⟩

def appCredentials : ClientCredentials := ⟨some "c", none, .none⟩

def appAuthorize : AuthorizeRequest :=
  ⟨"c", "https://example.com/cb", verifier, none, [], "https://kody.example/mcp"⟩

/-- The client asks for a resource; its code is issued at some time. -/
def appFlow (resource : Text) (issuedAt : ℕ) : Flow where
  params := [("client_id", "c"), ("redirect_uri", "https://example.com/cb"),
    ("response_type", "code"), ("code_challenge", verifier), ("resource", resource)]
  client := appClient
  authorize := appAuthorize
  userId := "u"
  code := "code"
  issuedAt := issuedAt
  credentials := appCredentials
  verifier := verifier

theorem appServer_run : exec Coop.step (freshServer clearPlatform)
    (alone 0 (.clientRegister appRegistration) [⟨0, [], []⟩, ⟨0, "c", []⟩]) = some appServer := by
  have hsome : (exec Coop.step (freshServer clearPlatform)
      (alone 0 (.clientRegister appRegistration) [⟨0, [], []⟩, ⟨0, "c", []⟩])).isSome = true := by
    decide +kernel
  obtain ⟨g, hg⟩ := Option.isSome_iff_exists.mp hsome
  unfold appServer
  rw [hg]
  rfl

theorem appServer_idle (t : ℕ) : appServer.pool t = none := by
  by_cases ht : t = 0
  · subst ht
    have hnone : (appServer.pool 0).isNone = true := by decide +kernel
    exact Option.isNone_iff_eq_none.mp hnone
  · rw [Coop.pool_of_exec appServer_run (u := t) fun e he => ?_]
    · rfl
    · have hthread : e.thread = 0 := by
        rcases List.mem_cons.mp he with rfl | he
        · rfl
        · obtain ⟨i, -, rfl⟩ := List.mem_map.mp he
          rfl
      omega

/-- The request is accepted if its resource is the server's or the bare issuer. -/
theorem appFlow_accepted {resource : Text} (issuedAt : ℕ)
    (hresource : resource = "https://kody.example/mcp" ∨ resource = "https://kody.example") :
    (appFlow resource issuedAt).Accepted redirectParser "https://kody.example" appServer where
  registered := by
    refine ⟨fun _ => [], registrationOf ["https://example.com/cb"], ?_⟩
    have hparsed : (parseClientRegistration redirectParser (fun _ => [])
        (registrationOf ["https://example.com/cb"])).toOption = some appRegistration := by
      decide +kernel
    exact ok_of_toOption hparsed
  found := by
    have hid : ((paramOf (appFlow resource 0).params "client_id").getD []) = "c" := by
      rcases hresource with rfl | rfl
      · decide +kernel
      · decide +kernel
    have hfound : appServer.shared.store.clients.find? "c" = some appClient := by decide +kernel
    show appServer.shared.store.clients.find? ((paramOf (appFlow resource 0).params
      "client_id").getD []) = some appClient
    rw [hid]
    exact hfound
  accepted := by
    show parseAuthorizeRequest redirectParser (appFlow resource 0).params (some appClient)
      "https://kody.example" = .ok appAuthorize
    apply ok_of_toOption
    rcases hresource with rfl | rfl
    · decide +kernel
    · decide +kernel
  authenticates := by
    show clientAuthenticate clearPlatform appCredentials appServer.shared.store = .ok appClient
    apply ok_of_toOption
    decide +kernel
  verifies := by
    show verifyPkce clearPlatform (some verifier) verifier = true
    decide +kernel
  code := by
    show ("code" : Text) ≠ []
    decide
  undrawn := by
    show ("code" : Text) ∉ appServer.shared.drawn
    decide +kernel
  unpresented := by
    refine ⟨fun t c f hpool => absurd (hpool.symm.trans (appServer_idle t)) (by simp), ?_⟩
    have hlog : (appServer.log.all fun entry => !entry.1.carries "code") = true := by
      decide +kernel
    intro entry hentry
    have hall := List.all_eq_true.mp hlog entry hentry
    rwa [Bool.not_eq_true'] at hall

/-- The code is issued and exchanged at one time. -/
def flowEvents (w : Flow) (between : List (Coop.Event (server clearPlatform))) :
    List (Coop.Event (server clearPlatform)) :=
  alone 1 (.codeIssue w.input) [⟨w.issuedAt, [], []⟩, ⟨w.issuedAt, w.code, []⟩] ++ between ++
  .call 2 (.exchange w.credentials w.form) :: .resume 2 ⟨w.issuedAt, [], []⟩ :: []

/-- The other pieces of the exchange. -/
def restEvents (now : ℕ) : List (Coop.Event (server clearPlatform)) :=
  [.resume 2 ⟨now, [], []⟩, .resume 2 ⟨now, "g", []⟩, .resume 2 ⟨now, "f", []⟩,
    .resume 2 ⟨now, "a", []⟩, .resume 2 ⟨now, "r", []⟩]

theorem flow_reaches {w : Flow} {N : ℕ} {g g' : Coop.Config (server p)}
    {es : List (Coop.Event (server p))} (hidle : ∀ t, N ≤ t → g.pool t = none)
    (h : execGuarded Coop.step (Coop.below N fun g e => onceCheck w N g e && keptCheck w g e) g es =
      some g') :
    Reaches Coop.step (fun g e => w.Once g e ∧ w.ClientKept g e) g g' := by
  refine (Coop.reaches_of_below hidle h).mono fun g e ⟨hcheck, hidle⟩ => ?_
  rw [Bool.and_eq_true] at hcheck
  exact ⟨once_of_check hcheck.1 hidle, clientKept_of_check hcheck.2⟩

/-- A request for the server's own resource is answered with tokens. -/
theorem authorized_honoured_appRun : ∃ g,
    Reaches Coop.step (fun g e => (appFlow "https://kody.example/mcp" 1).Once g e ∧
      (appFlow "https://kody.example/mcp" 1).ClientKept g e) appServer g ∧
    (appFlow "https://kody.example/mcp" 1).Honoured "https://kody.example" g ∧
    g.log.countP (yieldsPair "code") = 1 := by
  have hrun : (execGuarded Coop.step (Coop.below 3 fun g e =>
      onceCheck (appFlow "https://kody.example/mcp" 1) 3 g e &&
        keptCheck (appFlow "https://kody.example/mcp" 1) g e) appServer
      (flowEvents (appFlow "https://kody.example/mcp" 1) [] ++ restEvents 1)).map
      (fun g => g.log.countP (yieldsPair "code")) = some 1 := by
    decide +kernel
  obtain ⟨g, hg, hcount⟩ := Option.map_eq_some_iff.mp hrun
  have hreaches := flow_reaches (fun t _ => appServer_idle t) hg
  exact ⟨g, hreaches, authorized_honoured (reaches_of_exec appServer_run)
    (appFlow_accepted 1 (.inl rfl)) hreaches, hcount⟩

/-- **The bare issuer.**  Authorization accepts it as the resource, and issues a code for the
    server's own resource; the token request with the same text is refused. -/
theorem bareIssuer : ∃ g,
    (appFlow "https://kody.example" 1).Accepted redirectParser "https://kody.example" appServer ∧
    Reaches Coop.step (fun g e => (appFlow "https://kody.example" 1).Once g e ∧
      (appFlow "https://kody.example" 1).ClientKept g e) appServer g ∧
    (Call.exchange appCredentials (appFlow "https://kody.example" 1).form,
      Ret.exchanged (.error (.protocol "invalid_target"
        "Tokens are issued for https://kody.example/mcp only.")) none) ∈ g.log := by
  have hrun : (execGuarded Coop.step (Coop.below 3 fun g e =>
      onceCheck (appFlow "https://kody.example" 1) 3 g e &&
        keptCheck (appFlow "https://kody.example" 1) g e) appServer
      (flowEvents (appFlow "https://kody.example" 1) [] ++ (restEvents 1).take 2)).map
      (fun g => decide ((Call.exchange appCredentials (appFlow "https://kody.example" 1).form,
        Ret.exchanged (.error (.protocol "invalid_target"
          "Tokens are issued for https://kody.example/mcp only.")) none) ∈ g.log)) = some true := by
    decide +kernel
  obtain ⟨g, hg, hseen⟩ := Option.map_eq_some_iff.mp hrun
  exact ⟨g, appFlow_accepted 1 (.inr rfl), flow_reaches (fun t _ => appServer_idle t) hg,
    of_decide_eq_true hseen⟩

end KodyCelld.OAuth
