import KodyCelld.OAuth.Concurrency

namespace KodyCelld.OAuth

open KodyCelld.Lib OAuthStore

/-!
# Authorization codes under concurrent requests

* `Taken`, `Entitled` — what was checked before an exchange is given its pair;
* `CodeInv` — the invariant: every ticket in flight and every pair answered is backed by a code of its
  own, which is no longer in the store;
* `codes_singleUse` — single use, binding and expiry, for every interleaving.
-/

/-! ### What an exchange has to show -/

/-- The log of calls that returned, latest first. -/
abbrev Log : Type := List (Call × Ret)

/-- The client was registered; a registration never changes later. -/
def Registered (log : Log) (client : ClientRow) : Prop :=
  ∃ registration row, (Call.clientRegister registration, Ret.registered (.ok row)) ∈ log ∧
    row.clientId = client.clientId ∧ row.clientSecretHash = client.clientSecretHash ∧
    row.registration = client.registration

/-- The credentials are those of the client: its id, and its secret by the method it registered, or
    no secret where it has none. -/
def Authenticates (p : Platform) (credentials : ClientCredentials) (client : ClientRow) : Prop :=
  credentials.clientId = some client.clientId ∧
    match client.clientSecretHash with
    | some hash => credentials.method = client.registration.tokenEndpointAuthMethod ∧
        ∃ secret, credentials.clientSecret = some secret ∧ p.sha256Hex secret = hash
    | none => isBlank credentials.clientSecret = true

/-- What holds of an exchange that took a code from the store. -/
structure Taken (p : Platform) (log : Log) (credentials : ClientCredentials) (form : ExchangeForm)
    (ticket : Ticket) (code : Text) (input : CodeInput) (issuedAt : ℕ) : Prop where
  presented : form.code = some code
  issued : (Call.codeIssue input, Ret.codeIssued (.ok code) issuedAt) ∈ log
  row : ticket.row = codeRow p issuedAt code input
  authenticated : Authenticates p credentials ticket.client
  registered : Registered log ticket.client
  client : input.clientId = ticket.client.clientId
  redirectUri : isBlank form.redirectUri = true ∨ form.redirectUri = some input.redirectUri
  unexpired : ticket.takenAt < issuedAt + codeTtlMs

/-- What holds of an exchange that is answered with a pair: the code was issued to the client that
    authenticated and had not expired, the redirect URI and the resource are absent, empty or those
    of the code, and the verifier's challenge is the code's. -/
structure Entitled (p : Platform) (log : Log) (credentials : ClientCredentials) (form : ExchangeForm)
    (ticket : Ticket) (code : Text) (input : CodeInput) (issuedAt : ℕ) : Prop
    extends Taken p log credentials form ticket code input issuedAt where
  resource : isBlank form.resource = true ∨ form.resource = some input.resource
  pkce : ∃ verifier, form.codeVerifier = some verifier ∧
    p.pkceChallenge verifier = input.codeChallenge

/-- The entry is an exchange of the code that was answered with a pair. -/
def yieldsPair (code : Text) : Call × Ret → Bool
  | (.exchange _ form, .exchanged (.ok _) _) => decide (form.code = some code)
  | _ => false

/-- The request stands where it presents the code to the store. -/
def Presents {p : Platform} (g : Coop.Config (server p)) (t : ℕ) (code : Text) : Prop :=
  ∃ c client form, g.pool t = some (c, .authenticated client form) ∧
    exchangeCode client form = .ok code

/-- The laws of authorization codes in one state. -/
structure CodeLaws (p : Platform) (g : Coop.Config (server p)) : Prop where
  /-- Every pair went to a request that was entitled to it. -/
  bound : ∀ c response ticket, (c, Ret.exchanged (.ok response) ticket) ∈ g.log →
    ∃ credentials form k code input issuedAt, c = .exchange credentials form ∧ ticket = some k ∧
      Entitled p g.log credentials form k code input issuedAt
  /-- No code yields two pairs. -/
  once : ∀ code, g.log.countP (yieldsPair code) ≤ 1
  /-- An issued code that is presented to the store is not in the store from then on. -/
  spent : ∀ t i g₁ g₂ code input issuedAt, Presents g t code →
    (Call.codeIssue input, Ret.codeIssued (.ok code) issuedAt) ∈ g.log →
    Coop.step g (.resume t i) = some g₁ →
    Reaches Coop.step (fun _ _ => True) g₁ g₂ → g₂.shared.store.codes.find? (p.sha256Hex code) = none

variable {p : Platform} {s : OAuthStore}

/-! ### The checks -/

theorem eq_some_of_not_isBlank {t : Option Text} (h : isBlank t = false) : t = some (t.getD []) := by
  cases t with
  | none => exact absurd h (by simp [isBlank])
  | some t => rfl

theorem clientAuthenticate_ok {credentials : ClientCredentials} {client : ClientRow}
    (h : clientAuthenticate p credentials s = .ok client) :
    client ∈ s.clients.rows ∧ Authenticates p credentials client := by
  unfold clientAuthenticate at h
  split at h
  · exact absurd h (by simp)
  rename_i hid
  rw [Bool.not_eq_true] at hid
  split at h
  · exact absurd h (by simp)
  rename_i row hrow
  obtain ⟨hmem, hkey⟩ := Rows.find?_eq_some.mp hrow
  have hclient : credentials.clientId = some row.clientId := by
    rw [hkey]
    exact eq_some_of_not_isBlank hid
  cases hhash : row.clientSecretHash with
  | none =>
    simp only [hhash] at h
    split at h
    · rename_i hblank
      obtain rfl : row = client := Except.ok.inj h
      refine ⟨hmem, hclient, ?_⟩
      rw [hhash]
      exact hblank
    · exact absurd h (by simp)
  | some hash =>
    simp only [hhash] at h
    split_ifs at h with hblank hmethod hsecret
    rw [Bool.not_eq_true] at hblank
    rw [ne_eq, not_not] at hmethod hsecret
    obtain rfl : row = client := Except.ok.inj h
    refine ⟨hmem, hclient, ?_⟩
    rw [hhash]
    exact ⟨hmethod, _, eq_some_of_not_isBlank hblank, hsecret⟩

theorem exchangeCode_ok {client : ClientRow} {form : ExchangeForm} {code : Text}
    (h : exchangeCode client form = .ok code) : form.code = some code := by
  unfold exchangeCode at h
  split_ifs at h with _ hblank
  rw [Bool.not_eq_true] at hblank
  rw [eq_some_of_not_isBlank hblank, Except.ok.inj h]

theorem checkRecord_ok {client : ClientRow} {form : ExchangeForm} {record : Option CodeRow}
    {row : CodeRow} (h : checkRecord client form record = .ok row) :
    record = some row ∧ row.clientId = client.clientId ∧
      (isBlank form.redirectUri = true ∨ form.redirectUri = some row.redirectUri) := by
  unfold checkRecord at h
  split at h
  · exact absurd h (by simp)
  split_ifs at h with hclient hredirect
  obtain rfl := Except.ok.inj h
  rw [ne_eq, not_not] at hclient
  rw [Bool.and_eq_true, Bool.not_eq_true', decide_eq_true_eq, not_and_or, Bool.not_eq_false,
    ne_eq, not_not] at hredirect
  exact ⟨rfl, hclient, hredirect⟩

theorem checkVerifier_ok {form : ExchangeForm} {row : CodeRow}
    (h : checkVerifier p form row = .ok ()) :
    (isBlank form.resource = true ∨ form.resource = some row.resource) ∧
      ∃ verifier, form.codeVerifier = some verifier ∧ p.pkceChallenge verifier = row.codeChallenge := by
  unfold checkVerifier at h
  split_ifs at h with hpkce hresource
  rw [Bool.and_eq_true, Bool.not_eq_true', decide_eq_true_eq, not_and_or, Bool.not_eq_false,
    ne_eq, not_not] at hresource
  refine ⟨hresource, ?_⟩
  unfold verifyPkce at hpkce
  split at hpkce
  · exact absurd rfl hpkce
  rename_i verifier hverifier
  simp only [Bool.and_eq_false_iff, not_or, Bool.not_eq_false, decide_eq_true_eq] at hpkce
  exact ⟨verifier, hverifier, hpkce.2⟩

/-- Whatever is presented, the store has no row of it afterwards. -/
theorem takeCode_gone (now : ℕ) (hash : Text) :
    (takeCode now hash s).2.codes.find? hash = none := by
  have hdeleted : (s.codes.filter fun c => decide (c.codeHash ≠ hash)).find? hash = none := by
    rw [Rows.find?_filter]
    cases hrow : s.codes.find? hash with
    | none => rfl
    | some row => simp [(Rows.find?_eq_some.mp hrow).2]
  unfold takeCode
  split
  · assumption
  · dsimp only
    split <;> exact hdeleted

theorem takeCode_some {now : ℕ} {hash : Text} {row : CodeRow}
    (h : (takeCode now hash s).1 = some row) : s.codes.find? hash = some row ∧ now < row.expiresAt := by
  unfold takeCode at h
  split at h
  · exact absurd h (by simp)
  rename_i found hfound
  dsimp only at h
  split at h
  · exact absurd h (by simp)
  rename_i hexpires
  obtain rfl := Option.some.inj h
  exact ⟨hfound, by omega⟩

/-! ### Tickets -/

/-- The ticket of an exchange in flight. -/
def Frame.ticket : Frame → Option Ticket
  | .codeTaken ticket _ => some ticket
  | .granted ticket _ => some ticket
  | .mintAccess _ (.exchange ticket) => some ticket
  | .mintRefresh _ (.exchange ticket) _ => some ticket
  | _ => none

/-- The exchange has passed its last check. -/
def Frame.verified : Frame → Bool
  | .codeTaken .. => false
  | _ => true

/-- The ticket behind a pair that was answered. -/
def Ret.ticket : Ret → Option Ticket
  | .exchanged (.ok _) ticket => ticket
  | _ => none

/-- The ticket of what a piece leads to. -/
def outTicket : Frame ⊕ Ret → Option Ticket
  | .inl f => f.ticket
  | .inr r => r.ticket

/-- The piece of an exchange that takes the code from the store. -/
structure TakesCode (p : Platform) (s : OAuthStore) (f : Frame) (i : Input) (client : ClientRow)
    (form : ExchangeForm) (code : Text) (ticket : Ticket) : Prop where
  frame : f = .authenticated client form
  presented : exchangeCode client form = .ok code
  found : s.codes.find? (p.sha256Hex code) = some ticket.row
  unexpired : i.now < ticket.row.expiresAt
  client : ticket.client = client
  takenAt : ticket.takenAt = i.now
  issuedTo : ticket.row.clientId = ticket.client.clientId
  redirectUri : isBlank form.redirectUri = true ∨ form.redirectUri = some ticket.row.redirectUri
  next : (piece p s f i).2 = .inl (.codeTaken ticket form)

/-- A ticket is passed on, or a code is taken for it. -/
theorem piece_ticket {f : Frame} {i : Input} {k : Ticket}
    (h : outTicket (piece p s f i).2 = some k) :
    f.ticket = some k ∨ ∃ client form code, TakesCode p s f i client form code k := by
  cases f with
  | authenticated client form =>
    right
    simp only [piece] at h
    split at h
    · exact absurd h (by simp [outTicket, Ret.ticket])
    rename_i code hcode
    split at h
    · exact absurd h (by simp [outTicket, Ret.ticket])
    rename_i row hrow
    obtain rfl := Option.some.inj h
    obtain ⟨hrecord, hclient, hredirect⟩ := checkRecord_ok hrow
    obtain ⟨hfound, hexpires⟩ := takeCode_some hrecord
    refine ⟨client, form, code, rfl, hcode, hfound, hexpires, rfl, rfl, hclient, hredirect, ?_⟩
    simp only [piece, hcode, hrow]
  | codeTaken ticket form =>
    left
    simp only [piece] at h
    split at h
    · exact absurd h (by simp [outTicket, Ret.ticket])
    split at h
    · exact absurd h (by simp [outTicket, Ret.ticket])
    · exact h
  | granted ticket grantId => exact .inl h
  | mintAccess m goal =>
    left
    simp only [piece] at h
    split at h
    · cases goal <;> exact absurd h (by simp [outTicket, MintFor.fail, Ret.ticket])
    · cases goal <;> exact h
  | mintRefresh m goal access =>
    left
    simp only [piece] at h
    split at h
    · cases goal <;> exact absurd h (by simp [outTicket, MintFor.fail, Ret.ticket])
    · cases goal with
      | exchange ticket => exact h
      | rotation token clientId =>
        exact absurd h (by simp [outTicket, MintFor.done, Frame.ticket])
  | refreshHashed token clientId =>
    simp only [piece] at h
    split at h <;> exact absurd h (by simp [outTicket, Frame.ticket, Ret.ticket])
  | replaying token familyId json =>
    simp only [piece] at h
    split at h <;> exact absurd h (by simp [outTicket, Ret.ticket])
  | tokenRevoke token clientId =>
    simp only [piece] at h
    split at h
    · exact absurd h (by simp [outTicket, Ret.ticket])
    · split at h <;> exact absurd h (by simp [outTicket, Frame.ticket, Ret.ticket])
  | exchange credentials form =>
    simp only [piece] at h
    split at h <;> exact absurd h (by simp [outTicket, Frame.ticket, Ret.ticket])
  | _ => exact absurd h (by simp [piece, outTicket, Frame.ticket, Ret.ticket])

/-- The checks of the verifier stand between a taken code and everything after. -/
theorem piece_verified {f : Frame} {i : Input} {k : Ticket} (hticket : f.ticket = some k)
    (h : outTicket (piece p s f i).2 = some k) :
    (∃ form, f = .codeTaken k form ∧ checkVerifier p form k.row = .ok ()) ∨ f.verified = true := by
  cases f with
  | codeTaken ticket form =>
    left
    obtain rfl := Option.some.inj hticket
    simp only [piece] at h
    split at h
    · exact absurd h (by simp [outTicket, Ret.ticket])
    rename_i hcheck
    exact ⟨form, rfl, hcheck⟩
  | _ => exact .inr rfl

/-! ### Where a call's answer comes from -/

/-- A pair is answered by the last piece of the minting. -/
theorem piece_exchanged_ok {f : Frame} {i : Input} {response : TokenResponse} {ticket : Option Ticket}
    (h : (piece p s f i).2 = .inr (.exchanged (.ok response) ticket)) :
    ∃ m k access, f = .mintRefresh m (.exchange k) access ∧ ticket = some k := by
  cases f with
  | mintRefresh m goal access =>
    simp only [piece] at h
    split at h
    · cases goal <;> exact absurd h (by simp [MintFor.fail])
    · cases goal with
      | exchange k =>
        simp only [MintFor.done, Sum.inr.injEq, Ret.exchanged.injEq] at h
        exact ⟨m, k, access, rfl, h.2.symm⟩
      | rotation token clientId => exact absurd h (by simp [MintFor.done])
  | mintAccess m goal =>
    simp only [piece] at h
    split at h
    · cases goal <;> exact absurd h (by simp [MintFor.fail])
    · exact absurd h (by simp)
  | _ =>
    simp only [piece] at h
    repeat' split at h
    all_goals exact absurd h (by simp)

theorem piece_registered {f : Frame} {i : Input} {answer : Except OAuthError ClientRow}
    (h : (piece p s f i).2 = .inr (.registered answer)) :
    ∃ createdAt registration, f = .clientHashed createdAt registration := by
  cases f with
  | clientHashed createdAt registration => exact ⟨createdAt, registration, rfl⟩
  | mintRefresh m goal access =>
    simp only [piece] at h
    split at h <;> cases goal <;> exact absurd h (by simp [MintFor.fail, MintFor.done])
  | mintAccess m goal =>
    simp only [piece] at h
    split at h <;> cases goal <;> exact absurd h (by simp [MintFor.fail])
  | _ =>
    simp only [piece] at h
    repeat' split at h
    all_goals exact absurd h (by simp)

theorem piece_codeIssued {f : Frame} {i : Input} {code : Text} {issuedAt : ℕ}
    (h : (piece p s f i).2 = .inr (.codeIssued (.ok code) issuedAt)) :
    (∃ input, f = .codeHashed issuedAt input) ∧ code = i.draw := by
  cases f with
  | codeHashed issuedAt' input =>
    simp only [piece, Sum.inr.injEq, Ret.codeIssued.injEq] at h
    obtain ⟨hanswer, rfl⟩ := h
    refine ⟨⟨input, rfl⟩, ?_⟩
    unfold insertCode at hanswer
    split at hanswer
    · exact (Except.ok.inj hanswer).symm
    · exact absurd hanswer (by simp)
  | mintRefresh m goal access =>
    simp only [piece] at h
    split at h <;> cases goal <;> exact absurd h (by simp [MintFor.fail, MintFor.done])
  | mintAccess m goal =>
    simp only [piece] at h
    split at h <;> cases goal <;> exact absurd h (by simp [MintFor.fail])
  | _ =>
    simp only [piece] at h
    repeat' split at h
    all_goals exact absurd h (by simp)

theorem piece_authenticated {f : Frame} {i : Input} {client : ClientRow} {form : ExchangeForm}
    (h : (piece p s f i).2 = .inl (.authenticated client form)) :
    ∃ credentials, f = .exchange credentials form ∧
      clientAuthenticate p credentials s = .ok client := by
  cases f with
  | exchange credentials form' =>
    simp only [piece] at h
    split at h
    · exact absurd h (by simp)
    rename_i client' hclient
    simp only [Sum.inl.injEq, Frame.authenticated.injEq] at h
    obtain ⟨rfl, rfl⟩ := h
    exact ⟨credentials, rfl, hclient⟩
  | mintRefresh m goal access =>
    simp only [piece] at h
    split at h
    · exact absurd h (by simp)
    · cases goal <;> exact absurd h (by simp [MintFor.done])
  | _ =>
    simp only [piece] at h
    repeat' split at h
    all_goals exact absurd h (by simp)

/-! ### The invariant -/

/-- The code was issued, and the store will never have it again. -/
def Gone (p : Platform) (g : Coop.Config (server p)) (hash : Text) : Prop :=
  ∃ code, hash = p.sha256Hex code ∧ code ∈ g.shared.drawn ∧
    g.shared.store.codes.find? hash = none

/-- The hash of the code behind a pair that was answered. -/
def answeredHash (entry : Call × Ret) : Option Text := entry.2.ticket.map fun k => k.row.codeHash

/-- A call in flight that holds a ticket. -/
structure Holds {p : Platform} (g : Coop.Config (server p)) (t : ℕ) (c : Call) (f : Frame)
    (k : Ticket) : Prop where
  flies : g.pool t = some (c, f)
  ticket : f.ticket = some k

structure CodeInv (p : Platform) (g : Coop.Config (server p)) : Prop where
  belong : AllBelong g
  codes : ∀ row ∈ g.shared.store.codes.rows, ∃ code input issuedAt,
    row = codeRow p issuedAt code input ∧ code ∈ g.shared.drawn ∧
      (Call.codeIssue input, Ret.codeIssued (.ok code) issuedAt) ∈ g.log
  issued : ∀ input code issuedAt, (Call.codeIssue input, Ret.codeIssued (.ok code) issuedAt) ∈ g.log →
    code ∈ g.shared.drawn
  clients : ∀ row ∈ g.shared.store.clients.rows, Registered g.log row
  authenticated : ∀ t c client form, g.pool t = some (c, .authenticated client form) →
    ∃ credentials, c = .exchange credentials form ∧ Authenticates p credentials client ∧
      Registered g.log client
  tickets : ∀ t c f k, Holds g t c f k → ∃ credentials form code input issuedAt,
    c = .exchange credentials form ∧ Taken p g.log credentials form k code input issuedAt ∧
      (f.verified = true → checkVerifier p form k.row = .ok ())
  /-- A ticket's code is out of the store, -/
  gone : ∀ t c f k, Holds g t c f k → Gone p g k.row.codeHash
  /-- no other call in flight has a ticket for it, -/
  alone : ∀ t u c c' f f' k k', Holds g t c f k → Holds g u c' f' k' →
    k.row.codeHash = k'.row.codeHash → t = u
  /-- and it was not answered yet. -/
  notYet : ∀ t c f k, Holds g t c f k → ∀ entry ∈ g.log, answeredHash entry ≠ some k.row.codeHash
  bound : ∀ c response ticket, (c, Ret.exchanged (.ok response) ticket) ∈ g.log →
    ∃ credentials form k code input issuedAt, c = .exchange credentials form ∧ ticket = some k ∧
      Entitled p g.log credentials form k code input issuedAt
  answered : ∀ entry ∈ g.log, ∀ hash, answeredHash entry = some hash → Gone p g hash
  nodup : (g.log.filterMap answeredHash).Nodup

section
variable {g g' : Coop.Config (server p)} {t : ℕ} {c : Call} {f : Frame} {i : Input}

theorem Registered.mono {log log' : Log} (hsub : ∀ entry ∈ log, entry ∈ log') {client : ClientRow}
    (h : Registered log client) : Registered log' client := by
  obtain ⟨registration, row, hmem, hrest⟩ := h
  exact ⟨registration, row, hsub _ hmem, hrest⟩

theorem Taken.mono {log log' : Log} (hsub : ∀ entry ∈ log, entry ∈ log')
    {credentials : ClientCredentials} {form : ExchangeForm} {k : Ticket} {code : Text}
    {input : CodeInput} {issuedAt : ℕ} (h : Taken p log credentials form k code input issuedAt) :
    Taken p log' credentials form k code input issuedAt :=
  { h with issued := hsub _ h.issued, registered := h.registered.mono hsub }

/-- The row that `codeIssue` adds. -/
theorem mem_insertCode {issuedAt : ℕ} {code : Text} {input : CodeInput} {row : CodeRow}
    (h : row ∈ (insertCode p issuedAt code input s).2.codes.rows) :
    row ∈ s.codes.rows ∨ (row = codeRow p issuedAt code input ∧
      (insertCode p issuedAt code input s).1 = .ok code) := by
  unfold insertCode at h ⊢
  split at h
  · rename_i codes hcodes
    rcases (Rows.mem_insert? hcodes).mp h with hold | rfl
    · exact .inl hold
    · exact .inr ⟨rfl, rfl⟩
  · exact .inl h

/-- What is gone stays gone: later codes are new. -/
theorem Ran.gone (h : Ran p g g' t c f i) {hash : Text} (hgone : Gone p g hash) : Gone p g' hash := by
  obtain ⟨code, rfl, hdrawn, hnone⟩ := hgone
  refine ⟨code, rfl, h.drawn.subset hdrawn, ?_⟩
  rw [h.store, Option.eq_none_iff_forall_ne_some]
  intro row hrow
  obtain ⟨hmem, hkey⟩ := Rows.find?_eq_some.mp hrow
  rcases piece_codes hmem with hold | ⟨issuedAt, input, rfl, hnew⟩
  · exact absurd (Rows.find?_eq_some.mpr ⟨hold, hkey⟩) (by rw [hnone]; simp)
  · rcases mem_insertCode hnew with hold | ⟨rfl, -⟩
    · exact absurd (Rows.find?_eq_some.mpr ⟨hold, hkey⟩) (by rw [hnone]; simp)
    · -- the code just drawn is not this one
      have hsame : i.draw = code := p.sha256Hex_injective hkey
      exact (h.drawn.fresh rfl).1 (hsame ▸ hdrawn)

/-- The code that was taken was issued, and is gone now. -/
theorem TakesCode.gone (hinv : CodeInv p g) (h : Ran p g g' t c f i) {client : ClientRow}
    {form : ExchangeForm} {code : Text} {k : Ticket}
    (hk : TakesCode p g.shared.store f i client form code k) :
    Gone p g' k.row.codeHash ∧ k.row.codeHash = p.sha256Hex code ∧
      ∃ input issuedAt, k.row = codeRow p issuedAt code input ∧
        (Call.codeIssue input, Ret.codeIssued (.ok code) issuedAt) ∈ g.log := by
  obtain ⟨hmem, hkey⟩ := Rows.find?_eq_some.mp hk.found
  obtain ⟨code', input, issuedAt, hrow, hdrawn, hlog⟩ := hinv.codes k.row hmem
  obtain rfl : code' = code := by
    rw [hrow] at hkey
    exact p.sha256Hex_injective hkey
  refine ⟨⟨code', hkey, h.drawn.subset hdrawn, ?_⟩, hkey, input, issuedAt, hrow, hlog⟩
  have hstore : (piece p g.shared.store f i).1 =
      (takeCode i.now (p.sha256Hex code') g.shared.store).2 := by
    rw [hk.frame]
    simp only [piece, hk.presented]
    split <;> rfl
  rw [h.store, hstore, hkey]
  exact takeCode_gone ..

/-- A code in the store is in no ticket and behind no answer. -/
theorem TakesCode.unheld {client : ClientRow} {form : ExchangeForm} {code : Text} {k : Ticket}
    (hk : TakesCode p g.shared.store f i client form code k) (hkey : k.row.codeHash = p.sha256Hex code)
    {hash : Text} (hgone : Gone p g hash) : hash ≠ k.row.codeHash := by
  rintro rfl
  obtain ⟨code', heq, -, hnone⟩ := hgone
  rw [hkey] at hnone
  exact absurd (hk.found.symm.trans hnone) (by simp)

/-- A ticket was held before, by the same call, or its code was just taken. -/
theorem Ran.holds (h : Ran p g g' t c f i) {u : ℕ} {c' : Call} {f' : Frame} {k : Ticket}
    (hk : Holds g' u c' f' k) :
    (u ≠ t ∧ Holds g u c' f' k) ∨
    (u = t ∧ c' = c ∧ (piece p g.shared.store f i).2 = .inl f' ∧
      (Holds g t c f k ∨ ∃ client form code, TakesCode p g.shared.store f i client form code k)) := by
  rcases h.pool u c' f' hk.flies with ⟨hne, hold⟩ | ⟨rfl, rfl, hnext⟩
  · exact .inl ⟨hne, hold, hk.ticket⟩
  · right
    refine ⟨rfl, rfl, hnext, ?_⟩
    have hout : outTicket (piece p g.shared.store f i).2 = some k := by
      rw [hnext]
      exact hk.ticket
    rcases piece_ticket hout with hf | htakes
    · exact .inl ⟨h.before, hf⟩
    · exact .inr htakes

/-- The ticket behind a new answer was held by the call that returned. -/
theorem Ran.answers (h : Ran p g g' t c f i) {r : Ret} {k : Ticket}
    (hr : (piece p g.shared.store f i).2 = .inr r) (hk : r.ticket = some k) : Holds g t c f k := by
  have hout : outTicket (piece p g.shared.store f i).2 = some k := by
    rw [hr]
    exact hk
  rcases piece_ticket hout with hf | ⟨client, form, code, htakes⟩
  · exact ⟨h.before, hf⟩
  · exact absurd (hr.symm.trans htakes.next) (by simp)

theorem answeredHash_eq_some {entry : Call × Ret} {hash : Text} :
    answeredHash entry = some hash ↔ ∃ k, entry.2.ticket = some k ∧ k.row.codeHash = hash :=
  Option.map_eq_some_iff

/-- What is known of the tickets after a piece. -/
theorem CodeInv.tickets_step (hinv : CodeInv p g) (h : Ran p g g' t c f i) {u : ℕ} {c' : Call}
    {f' : Frame} {k : Ticket} (hk : Holds g' u c' f' k) :
    ∃ credentials form code input issuedAt, c' = .exchange credentials form ∧
      Taken p g'.log credentials form k code input issuedAt ∧
      (f'.verified = true → checkVerifier p form k.row = .ok ()) := by
  rcases h.holds hk with ⟨-, hold⟩ | ⟨rfl, rfl, hnext, hold | ⟨client, form, code, htakes⟩⟩
  · obtain ⟨credentials, form, code, input, issuedAt, hc, htaken, hcheck⟩ := hinv.tickets u c' f' k hold
    exact ⟨credentials, form, code, input, issuedAt, hc, htaken.mono fun _ => h.log_subset, hcheck⟩
  · obtain ⟨credentials, form, code, input, issuedAt, hc, htaken, hcheck⟩ :=
      hinv.tickets u c' f k hold
    refine ⟨credentials, form, code, input, issuedAt, hc, htaken.mono fun _ => h.log_subset, fun _ => ?_⟩
    have hout : outTicket (piece p g.shared.store f i).2 = some k := by
      rw [hnext]
      exact hk.ticket
    rcases piece_verified hold.ticket hout with ⟨form', rfl, hchecked⟩ | hverified
    · -- the form of the frame is the form of the call
      obtain ⟨credentials', hc'⟩ := hinv.belong u c' _ h.before
      rw [hc, Call.exchange.injEq] at hc'
      exact hc'.2 ▸ hchecked
    · exact hcheck hverified
  · obtain ⟨credentials, hc, hauth, hregistered⟩ :=
      hinv.authenticated u c' client form (htakes.frame ▸ h.before)
    obtain ⟨-, -, input, issuedAt, hrow, hlog⟩ := htakes.gone hinv h
    have hunverified : f' = .codeTaken k form := Sum.inl.inj (hnext.symm.trans htakes.next)
    refine ⟨credentials, form, code, input, issuedAt, hc,
      ⟨exchangeCode_ok htakes.presented, h.log_subset hlog, hrow, ?_, ?_, ?_, ?_, ?_⟩, fun hv => ?_⟩
    · exact htakes.client ▸ hauth
    · exact htakes.client ▸ hregistered.mono fun _ => h.log_subset
    · rw [← htakes.issuedTo, hrow]
      rfl
    · rw [show input.redirectUri = k.row.redirectUri by rw [hrow]; rfl]
      exact htakes.redirectUri
    · rw [htakes.takenAt, show issuedAt + codeTtlMs = k.row.expiresAt by rw [hrow]; rfl]
      exact htakes.unexpired
    · rw [hunverified] at hv
      exact absurd hv (by simp [Frame.verified])

/-- **Step lemma.** A step of the server keeps the invariant. -/
theorem CodeInv.step (hinv : CodeInv p g) {e : Coop.Event (server p)}
    (hstep : Coop.step g e = some g') : CodeInv p g' := by
  have hbelong := hinv.belong.step hstep
  rcases server_step hstep with ⟨t, c, -, rfl⟩ | ⟨t, i, c, f, -, h⟩
  · -- a call that was just made holds nothing yet
    have hholds : ∀ {u c' f' k}, Holds { g with
        pool := Function.update g.pool t (some (c, Call.start c)) } u c' f' k → Holds g u c' f' k := by
      intro u c' f' k hk
      rcases Coop.pool_update_cases hk.flies with ⟨-, heq⟩ | ⟨-, hold⟩
      · obtain ⟨rfl, rfl⟩ := Prod.mk.inj (Option.some.inj heq)
        have hnone : (Call.start c).ticket = none := by cases c <;> rfl
        exact absurd (hk.ticket.symm.trans hnone) (by simp)
      · exact ⟨hold, hk.ticket⟩
    refine ⟨hbelong, hinv.codes, hinv.issued, hinv.clients, fun u c' client form hu => ?_,
      fun u c' f' k hk => hinv.tickets u c' f' k (hholds hk),
      fun u c' f' k hk => hinv.gone u c' f' k (hholds hk),
      fun u v c' c'' f' f'' k k' hk hk' => hinv.alone u v c' c'' f' f'' k k' (hholds hk) (hholds hk'),
      fun u c' f' k hk => hinv.notYet u c' f' k (hholds hk), hinv.bound, hinv.answered, hinv.nodup⟩
    rcases Coop.pool_update_cases hu with ⟨-, heq⟩ | ⟨-, hold⟩
    · obtain ⟨rfl, hstart⟩ := Prod.mk.inj (Option.some.inj heq)
      cases c <;> exact absurd hstart (by simp [Call.start])
    · exact hinv.authenticated u c' client form hold
  · refine ⟨hbelong, fun row hrow => ?_, fun input code issuedAt hlog => ?_, fun row hrow => ?_,
      fun u c' client form hu => ?_, fun u c' f' k hk => hinv.tickets_step h hk,
      fun u c' f' k hk => ?_, fun u v c' c'' f' f'' k k' hk hk' hsame => ?_,
      fun u c' f' k hk entry hentry hhash => ?_, fun c' response ticket hlog => ?_,
      fun entry hentry hash hhash => ?_, ?_⟩
    · -- codes
      rw [h.store] at hrow
      rcases piece_codes hrow with hold | ⟨issuedAt, input, rfl, hnew⟩
      · obtain ⟨code, input, issuedAt, hrow, hdrawn, hlog⟩ := hinv.codes row hold
        exact ⟨code, input, issuedAt, hrow, h.drawn.subset hdrawn, h.log_subset hlog⟩
      · rcases mem_insertCode hnew with hold | ⟨rfl, hanswer⟩
        · obtain ⟨code, input, issuedAt, hrow, hdrawn, hlog⟩ := hinv.codes row hold
          exact ⟨code, input, issuedAt, hrow, h.drawn.subset hdrawn, h.log_subset hlog⟩
        · refine ⟨i.draw, input, issuedAt, rfl, ?_, ?_⟩
          · rw [(h.drawn.fresh rfl).2]
            exact List.mem_cons_self
          · obtain rfl : c = .codeIssue input := hinv.belong t c _ h.before
            rcases h.log with ⟨⟨f', hf'⟩, -⟩ | ⟨r, hr, hlog⟩
            · exact absurd hf' (by simp [piece])
            · rw [hlog, ← show Ret.codeIssued _ issuedAt = r from Sum.inr.inj hr, hanswer]
              exact List.mem_cons_self
    · -- issued
      rcases h.log_cases hlog with hold | ⟨-, hr⟩
      · exact h.drawn.subset (hinv.issued input code issuedAt hold)
      · obtain ⟨⟨input', rfl⟩, rfl⟩ := piece_codeIssued hr
        rw [(h.drawn.fresh rfl).2]
        exact List.mem_cons_self
    · -- clients
      rw [h.store] at hrow
      rcases piece_clients hrow with ⟨old, hold, hid, hhash, hreg⟩ | hnew
      · obtain ⟨registration, row', hlog, hid', hhash', hreg'⟩ := hinv.clients old hold
        exact ⟨registration, row', h.log_subset hlog, hid'.trans hid, hhash'.trans hhash,
          hreg'.trans hreg⟩
      · obtain ⟨createdAt, registration, rfl⟩ := piece_registered hnew
        obtain rfl : c = .clientRegister registration := hinv.belong t c _ h.before
        refine ⟨registration, row, ?_, rfl, rfl, rfl⟩
        rcases h.log with ⟨⟨f', hf'⟩, -⟩ | ⟨r, hr, hlog⟩
        · exact absurd (hf'.symm.trans hnew) (by simp)
        · rw [hlog, Sum.inr.inj (hr.symm.trans hnew)]
          exact List.mem_cons_self
    · -- authenticated
      rcases h.pool u c' _ hu with ⟨-, hold⟩ | ⟨rfl, rfl, hnext⟩
      · obtain ⟨credentials, hc, hauth, hreg⟩ := hinv.authenticated u c' client form hold
        exact ⟨credentials, hc, hauth, hreg.mono fun _ => h.log_subset⟩
      · obtain ⟨credentials, rfl, hok⟩ := piece_authenticated hnext
        obtain ⟨hmem, hauth⟩ := clientAuthenticate_ok hok
        exact ⟨credentials, hinv.belong u c' _ h.before, hauth,
          (hinv.clients client hmem).mono fun _ => h.log_subset⟩
    · -- gone
      rcases h.holds hk with ⟨-, hold⟩ | ⟨-, -, -, hold | ⟨client, form, code, htakes⟩⟩
      · exact h.gone (hinv.gone u c' f' k hold)
      · exact h.gone (hinv.gone t c f k hold)
      · exact (htakes.gone hinv h).1
    · -- alone
      rcases h.holds hk with ⟨hu, hold⟩ | ⟨rfl, -, -, hold | ⟨client, form, code, htakes⟩⟩
      · rcases h.holds hk' with ⟨-, hold'⟩ | ⟨rfl, -, -, hold' | ⟨client, form, code, htakes⟩⟩
        · exact hinv.alone u v c' c'' f' f'' k k' hold hold' hsame
        · exact hinv.alone u v c' c f' f k k' hold hold' hsame
        · exact absurd hsame (htakes.unheld (htakes.gone hinv h).2.1 (hinv.gone u c' f' k hold))
      · rcases h.holds hk' with ⟨-, hold'⟩ | ⟨rfl, -, -, -⟩
        · exact hinv.alone u v c c'' f f'' k k' hold hold' hsame
        · rfl
      · rcases h.holds hk' with ⟨-, hold'⟩ | ⟨rfl, -, -, -⟩
        · exact absurd hsame.symm
            (htakes.unheld (htakes.gone hinv h).2.1 (hinv.gone v c'' f'' k' hold'))
        · rfl
    · -- not yet answered
      rcases h.log_cases hentry with hold | ⟨-, hr⟩
      · rcases h.holds hk with ⟨-, hk⟩ | ⟨-, -, -, hk | ⟨client, form, code, htakes⟩⟩
        · exact hinv.notYet u c' f' k hk entry hold hhash
        · exact hinv.notYet t c f k hk entry hold hhash
        · exact htakes.unheld (htakes.gone hinv h).2.1 (hinv.answered entry hold _ hhash) rfl
      · obtain ⟨k', hticket, hsame⟩ := answeredHash_eq_some.mp hhash
        have hheld := h.answers hr hticket
        rcases h.holds hk with ⟨hne, hk⟩ | ⟨-, -, hnext, -⟩
        · exact hne (hinv.alone u t c' c f' f k k' hk hheld hsame.symm)
        · exact absurd (hr.symm.trans hnext) (by simp)
    · -- bound
      rcases h.log_cases hlog with hold | ⟨hc, hr⟩
      · obtain ⟨credentials, form, k, code, input, issuedAt, hc, hticket, hentitled⟩ :=
          hinv.bound c' response ticket hold
        exact ⟨credentials, form, k, code, input, issuedAt, hc, hticket,
          ⟨hentitled.toTaken.mono fun _ => h.log_subset, hentitled.resource, hentitled.pkce⟩⟩
      · obtain rfl : c' = c := hc
        obtain ⟨m, k, access, rfl, rfl⟩ := piece_exchanged_ok hr
        obtain ⟨credentials, form, code, input, issuedAt, hc', htaken, hcheck⟩ :=
          hinv.tickets t c' _ k ⟨h.before, rfl⟩
        obtain ⟨hresource, hpkce⟩ := checkVerifier_ok (hcheck rfl)
        refine ⟨credentials, form, k, code, input, issuedAt, hc', rfl,
          ⟨htaken.mono fun _ => h.log_subset, ?_, ?_⟩⟩
        · rw [show input.resource = k.row.resource by rw [htaken.row]; rfl]
          exact hresource
        · rw [show input.codeChallenge = k.row.codeChallenge by rw [htaken.row]; rfl]
          exact hpkce
    · -- answered
      rcases h.log_cases hentry with hold | ⟨-, hr⟩
      · exact h.gone (hinv.answered entry hold hash hhash)
      · obtain ⟨k, hticket, rfl⟩ := answeredHash_eq_some.mp hhash
        exact h.gone (hinv.gone t c f k (h.answers hr hticket))
    · -- no code twice
      rcases h.log with ⟨-, hlog⟩ | ⟨r, hr, hlog⟩
      · rw [hlog]
        exact hinv.nodup
      · rw [hlog, List.filterMap_cons]
        cases hhash : answeredHash (c, r) with
        | none => exact hinv.nodup
        | some hash =>
          refine List.nodup_cons.mpr ⟨fun hmem => ?_, hinv.nodup⟩
          obtain ⟨entry, hentry, hsame⟩ := List.mem_filterMap.mp hmem
          obtain ⟨k, hticket, rfl⟩ := answeredHash_eq_some.mp hhash
          exact hinv.notYet t c f k (h.answers hr hticket) entry hentry hsame

end

/-! ### Every run -/

theorem CodeInv.start : CodeInv p (freshServer p) where
  belong := fun _ _ _ h => absurd h (by simp [freshServer, Coop.idle])
  codes := fun _ h => absurd h List.not_mem_nil
  issued := fun _ _ _ h => absurd h List.not_mem_nil
  clients := fun _ h => absurd h List.not_mem_nil
  authenticated := fun _ _ _ _ h => absurd h (by simp [freshServer, Coop.idle])
  tickets := fun _ _ _ _ h => absurd h.flies (by simp [freshServer, Coop.idle])
  gone := fun _ _ _ _ h => absurd h.flies (by simp [freshServer, Coop.idle])
  alone := fun _ _ _ _ _ _ _ _ h => absurd h.flies (by simp [freshServer, Coop.idle])
  notYet := fun _ _ _ _ h => absurd h.flies (by simp [freshServer, Coop.idle])
  bound := fun _ _ _ h => absurd h List.not_mem_nil
  answered := fun _ h => absurd h List.not_mem_nil
  nodup := List.nodup_nil

/-- **Run lemma.** -/
theorem codeInv_of_reaches {g : Coop.Config (server p)}
    (h : Reaches Coop.step (fun _ _ => True) (freshServer p) g) : CodeInv p g :=
  h.invariant (CodeInv p) (fun _ _ _ hinv _ hstep => hinv.step hstep) CodeInv.start

/-- What is gone stays gone over runs. -/
theorem gone_of_reaches {g g' : Coop.Config (server p)} {hash : Text}
    (h : Reaches Coop.step (fun _ _ => True) g g') (hgone : Gone p g hash) : Gone p g' hash := by
  refine h.invariant (fun g => Gone p g hash) (fun g e g' hg _ hstep => ?_) hgone
  rcases server_step hstep with ⟨t, c, -, rfl⟩ | ⟨t, i, c, f, -, hran⟩
  · exact hg
  · exact hran.gone hg

/-- At most one entry carries a value that does not occur twice. -/
theorem countP_le_one {α β : Type} {carries : α → Bool} {value : α → Option β} {b : β} {l : List α}
    (h : ∀ a ∈ l, carries a = true → value a = some b) (hnodup : (l.filterMap value).Nodup) :
    l.countP carries ≤ 1 := by
  induction l with
  | nil => exact Nat.zero_le 1
  | cons a l ih =>
    have hrest := fun x hx => h x (List.mem_cons_of_mem a hx)
    by_cases ha : carries a = true
    · rw [List.filterMap_cons, h a List.mem_cons_self ha, List.nodup_cons] at hnodup
      have hnone : l.countP carries = 0 := by
        rw [List.countP_eq_zero]
        intro x hx hcarries
        exact hnodup.1 (List.mem_filterMap.mpr ⟨x, hx, hrest x hx hcarries⟩)
      rw [List.countP_cons_of_pos ha, hnone]
    · rw [List.countP_cons_of_neg ha]
      refine ih hrest ?_
      rw [List.filterMap_cons] at hnodup
      split at hnodup
      · exact hnodup
      · exact (List.nodup_cons.mp hnodup).2

/-- Two pairs for one code would be two answers behind one code. -/
theorem CodeInv.once {g : Coop.Config (server p)} (hinv : CodeInv p g) (code : Text) :
    g.log.countP (yieldsPair code) ≤ 1 := by
  refine countP_le_one (b := p.sha256Hex code) (fun entry hentry hyields => ?_) hinv.nodup
  obtain ⟨c, r⟩ := entry
  unfold yieldsPair at hyields
  split at hyields
  · rename_i credentials form response ticket heq
    obtain ⟨rfl, rfl⟩ := Prod.mk.inj heq
    rw [decide_eq_true_eq] at hyields
    obtain ⟨credentials', form', k, code', input, issuedAt, hc, rfl, hentitled⟩ :=
      hinv.bound _ _ _ hentry
    obtain ⟨rfl, rfl⟩ := Call.exchange.inj hc
    obtain rfl : code' = code := Option.some.inj (hentitled.presented.symm.trans hyields)
    refine answeredHash_eq_some.mpr ⟨k, rfl, ?_⟩
    rw [hentitled.row]
    rfl
  · exact absurd hyields (by simp)

/-- **Authorization codes are single-use and bound**, for every interleaving of registrations,
    authorizations, token requests, revocations and clean-ups. -/
theorem codes_singleUse {g : Coop.Config (server p)}
    (h : Reaches Coop.step (fun _ _ => True) (freshServer p) g) : CodeLaws p g := by
  have hinv := codeInv_of_reaches h
  refine ⟨hinv.bound, hinv.once, fun t i g₁ g₂ code input issuedAt hpresents hissued hstep hlater => ?_⟩
  obtain ⟨c, client, form, hpool, hcode⟩ := hpresents
  rcases server_step hstep with ⟨u, c', he, -⟩ | ⟨u, i', c', f, he, hran⟩
  · exact absurd he (by simp)
  · obtain ⟨rfl, rfl⟩ := Coop.Event.resume.inj he
    obtain ⟨rfl, rfl⟩ := Prod.mk.inj (Option.some.inj (hran.before.symm.trans hpool))
    have hgone : Gone p g₁ (p.sha256Hex code) := by
      refine ⟨code, rfl, hran.drawn.subset (hinv.issued input code issuedAt hissued), ?_⟩
      have hstore : (piece p g.shared.store (.authenticated client form) i).1 =
          (takeCode i.now (p.sha256Hex code) g.shared.store).2 := by
        simp only [piece, hcode]
        split <;> rfl
      rw [hran.store, hstore]
      exact takeCode_gone ..
    obtain ⟨-, -, -, hnone⟩ := gone_of_reaches hlater hgone
    exact hnone

/-! ### Two runs -/

/-- A call of thread `t` that runs to its end with nothing in between. -/
def alone (t : ℕ) (c : Call) (inputs : List Input) : List (Coop.Event (server clearPlatform)) :=
  .call t c :: inputs.map fun i => .resume t i

/-- A verifier, and its own challenge on the clear platform. -/
def verifier : Text := List.replicate 43 'v'

/-- A public client registers, is given a code, and exchanges it with a form. -/
def exchangeRun (form : ExchangeForm) : List (Coop.Event (server clearPlatform)) :=
  alone 0 (.clientRegister
      ⟨"app", ["https://app.example/cb"], .none, ["authorization_code"], none, none, none, none⟩)
    [⟨0, [], []⟩, ⟨0, "c", []⟩] ++
  alone 1 (.codeIssue ⟨"c", "u", "https://app.example/cb", verifier, "kody", "https://kody.example/mcp"⟩)
    [⟨1, [], []⟩, ⟨1, "code", []⟩] ++
  alone 2 (.exchange ⟨some "c", none, .none⟩ form)
    [⟨2, [], []⟩, ⟨2, [], []⟩, ⟨2, "g", []⟩, ⟨2, "f", []⟩, ⟨2, "a", []⟩, ⟨2, "r", []⟩]

/-- The form as it should be. -/
def fullForm : ExchangeForm :=
  ⟨some "code", some "https://app.example/cb", some verifier, some "https://kody.example/mcp"⟩

/-- The form with `redirect_uri=` and `resource=` sent empty. -/
def emptyForm : ExchangeForm := { fullForm with redirectUri := some [], resource := some [] }

/-- After an exchange, the code yielded its one pair. -/
theorem codes_singleUse_exchangeRun :
    ∃ g, exec Coop.step (freshServer clearPlatform) (exchangeRun fullForm) = some g ∧
      CodeLaws clearPlatform g ∧ g.log.countP (yieldsPair "code") = 1 := by
  have hrun : (exec Coop.step (freshServer clearPlatform) (exchangeRun fullForm)).map
      (fun g => g.log.countP (yieldsPair "code")) = some 1 := by
    decide +kernel
  obtain ⟨g, hg, hcount⟩ := Option.map_eq_some_iff.mp hrun
  exact ⟨g, hg, codes_singleUse (reaches_of_exec hg), hcount⟩

/-- What the log of that run holds: the form as it was sent, and codes with a redirect URI. -/
def emptyFormEntry : Call × Ret → Bool
  | (.exchange _ form, .exchanged (.ok _) _) => decide (form = emptyForm)
  | (.codeIssue input, .codeIssued _ _) => decide (input.redirectUri ≠ [])
  | _ => true

/-- **The redirect URI and the resource may also be sent empty**: it is not so that they are always
    absent or those of the code. -/
theorem emptyForm_yieldsPair :
    ¬ ∀ g : Coop.Config (server clearPlatform),
      Reaches Coop.step (fun _ _ => True) (freshServer clearPlatform) g →
      ∀ credentials form response ticket,
        (Call.exchange credentials form, Ret.exchanged (.ok response) ticket) ∈ g.log →
        ∃ code input issuedAt, form.code = some code ∧
          (Call.codeIssue input, Ret.codeIssued (.ok code) issuedAt) ∈ g.log ∧
          (form.redirectUri = none ∨ form.redirectUri = some input.redirectUri) ∧
          (form.resource = none ∨ form.resource = some input.resource) := by
  intro hclaim
  have hrun : (exec Coop.step (freshServer clearPlatform) (exchangeRun emptyForm)).map
      (fun g => (g.log.any (yieldsPair "code"), g.log.all emptyFormEntry)) = some (true, true) := by
    decide +kernel
  obtain ⟨g, hg, hlog⟩ := Option.map_eq_some_iff.mp hrun
  obtain ⟨hany, hall⟩ := Prod.mk.inj hlog
  rw [List.any_eq_true] at hany
  rw [List.all_eq_true] at hall
  obtain ⟨⟨c, r⟩, hentry, hyields⟩ := hany
  unfold yieldsPair at hyields
  split at hyields
  · rename_i credentials form response ticket heq
    obtain ⟨rfl, rfl⟩ := Prod.mk.inj heq
    have hform : form = emptyForm := of_decide_eq_true (hall _ hentry)
    obtain ⟨code, input, issuedAt, -, hissued, hredirect, -⟩ :=
      hclaim g (reaches_of_exec hg) credentials form response ticket hentry
    have hstored : input.redirectUri ≠ [] := of_decide_eq_true (hall _ hissued)
    rw [hform] at hredirect
    rcases hredirect with hnone | hsame
    · exact absurd hnone (by simp [emptyForm])
    · exact hstored (Option.some.inj hsame).symm
  · exact absurd hyields (by simp)

end KodyCelld.OAuth
