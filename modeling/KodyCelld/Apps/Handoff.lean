import KodyCelld.Apps.Tokens
import KodyCelld.Auth.AccountStore

namespace KodyCelld.Apps

open KodyCelld.Lib KodyCelld.Auth

/-!
# App handoffs (`apps/open.ts`, `apps/origin.ts`)

The Kody origin mints a handoff; the app origin checks it against the time at which its request started,
then has the registry burn its id, which judges expiry by the time at which the burn runs.

* `HandoffsHold` — what should hold in every state of every run;
* `Unforged` — a signature that verifies was made before: HMAC is not forged;
* `Timely` — a handoff is burned before it expires;
* `handoffs_timely` — on runs whose steps are so the first holds;
* `lateBurn` — on others it does not have to.

Beside what is stored, the state lists the messages signed, the handoffs minted and those that were
exchanged for a session; nothing the source computes depends on these.
-/

/-! ### Requests -/

/-- A request on the app origin: the user and package of its URL, its `__kody_handoff` (empty without
    one), its state cookie (empty without one) and its session cookie. -/
structure AppRequest where
  uid : Text
  pkg : Text
  token : Text
  state : Text
  session : Option Text
  safeMethod : Bool
  deriving DecidableEq, Repr

/-- A handoff that was exchanged for a session. -/
structure Exchange where
  request : AppRequest
  claims : HandoffClaims
  startedAt : ℕ
  burnedAt : ℕ
  deriving DecidableEq

structure AppsState where
  accounts : AccountStore
  /-- The latest reading of the registry's clock. -/
  clock : ℕ
  /-- The messages signed under the master key so far. -/
  signed : List Text
  minted : List HandoffMint
  /-- The handoffs exchanged so far, latest first. -/
  exchanges : List Exchange

inductive Call where
  | openApp (uid pkg sid st : Text)
  | appRequest (r : AppRequest)
  | sign (other : OtherSeal)
  deriving DecidableEq, Repr

/-- Where a call stands. -/
inductive Frame where
  | start (call : Call)
  | minting (m : HandoffMint)
  | checking (now : ℕ) (r : AppRequest)
  | burning (now : ℕ) (r : AppRequest) (c : HandoffClaims)
  | signingSession (now : ℕ) (c : HandoffClaims)
  | verifyingSession (now : ℕ) (r : AppRequest)
  | checkingAlive (now : ℕ) (r : AppRequest) (c : AppSessionClaims)
  | signing (other : OtherSeal)

/-- What a call returned.  A request that was served comes with the claims of its session. -/
inductive Ret where
  | opened (token : Text)
  | exchanged (session : Text)
  | served (c : AppSessionClaims) (now : ℕ)
  | openFromKody
  | startRoundTrip
  | signed (signature : List UInt8)

/-- What the outside supplies to one piece: the clock, a new id, and whether the Kody session of a
    cookie is alive and its user exists. -/
structure Input where
  now : ℕ
  draw : Text
  alive : Bool
  userExists : Bool
  deriving DecidableEq, Repr

/-- A request without a session: a failed handoff must not loop back to Kody. -/
def refuse (r : AppRequest) : Ret :=
  if !r.safeMethod || decide (r.token ≠ []) then .openFromKody else .startRoundTrip

section
variable (p : Platform)

/-- Runs a call to its next `await` or to its return. -/
def piece (s : AppsState) : Frame → Input → AppsState × (Frame ⊕ Ret)
  | .start (.openApp uid pkg sid st), i =>
    ({ s with minted := ⟨uid, pkg, sid, st, i.now + handoffTtlMs, i.draw⟩ :: s.minted },
      .inl (.minting ⟨uid, pkg, sid, st, i.now + handoffTtlMs, i.draw⟩))
  | .minting m, _ =>
    ({ s with signed := message handoffPurpose (payloadOf m.members) :: s.signed },
      .inr (.opened (mintHandoff p m)))
  | .start (.appRequest r), i =>
    if r.token = [] then (s, .inl (.verifyingSession i.now r)) else (s, .inl (.checking i.now r))
  | .checking now r, _ =>
    match checkHandoff p now ⟨r.uid, r.pkg, r.state⟩ r.token with
    | .error _ => (s, .inl (.verifyingSession now r))
    | .ok c => (s, .inl (.burning now r c))
  | .burning now r c, i =>
    match s.accounts.appHandoffBurn i.now c.jti c.exp with
    | (true, accounts) =>
      ({ s with
          accounts := accounts, clock := i.now
          exchanges := ⟨r, c, now, i.now⟩ :: s.exchanges }, .inl (.signingSession now c))
    | (false, accounts) =>
      ({ s with accounts := accounts, clock := i.now }, .inl (.verifyingSession now r))
  | .signingSession now c, _ =>
    ({ s with
        signed := message sessionPurpose
          (payloadOf (appSessionMembers c.uid c.sid (now + appSessionMaxMs))) :: s.signed },
      .inr (.exchanged (signAppSession p c.uid c.sid (now + appSessionMaxMs))))
  | .verifyingSession now r, _ =>
    match r.session.bind (verifyAppSession p now) with
    | none => (s, .inr (refuse r))
    | some c => if c.uid ≠ r.uid then (s, .inr (refuse r)) else (s, .inl (.checkingAlive now r c))
  | .checkingAlive now r c, i =>
    if !i.alive then (s, .inr (refuse r))
    else if !i.userExists then (s, .inr .openFromKody)
    else (s, .inr (.served c now))
  | .start (.sign other), _ => (s, .inl (.signing other))
  | .signing other, _ =>
    ({ s with signed := other.message :: s.signed }, .inr (.signed (p.hmac other.message)))

/-- The largest time value. -/
def maxTimeValue : ℕ := 8640000000000000

/-- What the outside can supply: a clock reading that is a time value, a new id that was not drawn
    before, and a clock of the registry that does not go back. -/
def Supplied (s : AppsState) (i : Input) : Frame → Prop
  | .start (.openApp ..) => i.now ≤ maxTimeValue ∧ ∀ m ∈ s.minted, m.jti ≠ i.draw
  | .burning .. => i.now ≤ maxTimeValue ∧ s.clock ≤ i.now
  | _ => i.now ≤ maxTimeValue

instance (s : AppsState) (i : Input) : (f : Frame) → Decidable (Supplied s i f)
  | .start (.openApp ..) => inferInstanceAs (Decidable (_ ∧ _))
  | .start (.appRequest ..) | .start (.sign ..) | .minting .. | .checking .. | .signingSession ..
  | .verifyingSession .. | .checkingAlive .. | .signing .. => inferInstanceAs (Decidable (_ ≤ _))
  | .burning .. => inferInstanceAs (Decidable (_ ∧ _))

/-- The two origins and the registry as a system of concurrent calls. -/
abbrev apps : Coop where
  Shared := AppsState
  Call := Call
  Frame := Frame
  Input := Input
  Ret := Ret
  start := Frame.start
  resume := fun s f i => if Supplied s i f then some (piece p s f i) else none

def freshApps : Coop.Config (apps p) := @Coop.idle (apps p) ⟨emptyAccounts, 0, [], [], []⟩

end

/-! ### What should hold -/

variable {p : Platform} {s s' : AppsState}

def HandoffMint.claims (m : HandoffMint) : HandoffClaims := ⟨m.uid, m.pkg, m.sid, m.st, m.exp, m.jti⟩

/-- The exchange is of this handoff: for the user, package and state it was minted for, and before it
    expired. -/
structure Exchange.Of (x : Exchange) (m : HandoffMint) : Prop where
  claims : x.claims = m.claims
  uid : x.request.uid = m.uid
  pkg : x.request.pkg = m.pkg
  st : x.request.state = m.st
  before : x.burnedAt < m.exp

/-- A handoff is exchanged at most once, and only as it was minted; a session is accepted only as it was
    signed for an exchange.  So no token of one purpose is accepted for another. -/
structure HandoffsHold (g : Coop.Config (apps p)) : Prop where
  once : ∀ jti, g.shared.exchanges.countP (fun x => decide (x.claims.jti = jti)) ≤ 1
  minted : ∀ x ∈ g.shared.exchanges, ∃ m ∈ g.shared.minted, x.Of m
  sessions : ∀ call c now, (call, Ret.served c now) ∈ g.log → (now : ℚ) < c.exp ∧
    ∃ x ∈ g.shared.exchanges, c = ⟨x.claims.uid, x.claims.sid, x.startedAt + appSessionMaxMs⟩

/-! ### When it does -/

/-- The value that a piece unseals, and the purpose it expects. -/
def Frame.presents? : Frame → Option (Text × Text)
  | .checking _ r => some (handoffPurpose, r.token)
  | .verifyingSession _ r => r.session.map fun value => (sessionPurpose, value)
  | _ => none

/-- HMAC is not forged: a value whose signature verifies was signed. -/
def Unforged (g : Coop.Config (apps p)) : Coop.Event (apps p) → Prop
  | .call _ _ => True
  | .resume t _ => ∀ c f purpose value payload signature, g.pool t = some (c, f) →
    f.presents? = some (purpose, value) → value.splitOn '.' = [payload, signature] →
    fromBase64Url signature = some (p.hmac (message purpose payload)) →
    message purpose payload ∈ g.shared.signed

/-- The condition on a step: where it burns a handoff, the handoff has not expired by then. -/
def Timely (g : Coop.Config (apps p)) : Coop.Event (apps p) → Prop
  | .call _ _ => True
  | .resume t i => ∀ c now r claims, g.pool t = some (c, .burning now r claims) →
    (i.now : ℚ) < claims.exp

/-! ### Checked tokens -/

theorem checkHandoff_ok {now : ℕ} {expected : Expected} {token : Text} {c : HandoffClaims}
    (h : checkHandoff p now expected token = .ok c) :
    (∃ members, unsealToken p handoffPurpose token = .ok members ∧ readHandoff members = some c) ∧
      c.uid = expected.uid ∧ c.pkg = expected.pkg ∧ c.st = expected.st := by
  unfold checkHandoff at h
  split at h
  · exact absurd h (by simp)
  rename_i members hunseal
  split at h
  · exact absurd h (by simp)
  rename_i found hread
  split at h
  · exact absurd h (by simp)
  split at h
  · exact absurd h (by simp)
  rename_i hbound
  obtain rfl := Except.ok.inj h
  simp only [not_or, not_not] at hbound
  exact ⟨⟨members, hunseal, hread⟩, hbound.1, hbound.2.1, hbound.2.2⟩

theorem verifyAppSession_ok {now : ℕ} {value : Text} {c : AppSessionClaims}
    (h : verifyAppSession p now value = some c) :
    (∃ members, unsealToken p sessionPurpose value = .ok members ∧
      readAppSession members = some c) ∧ (now : ℚ) < c.exp := by
  unfold verifyAppSession at h
  split at h
  · exact absurd h (by simp)
  rename_i members hunseal
  obtain ⟨hread, hlive⟩ := Option.filter_eq_some_iff.mp h
  exact ⟨⟨members, hunseal, hread⟩, by simpa using hlive⟩

/-! ### The invariant -/

/-- The message of the session that an exchange ends with. -/
def Exchange.message (x : Exchange) : Text :=
  Apps.message sessionPurpose
    (payloadOf (appSessionMembers x.claims.uid x.claims.sid (x.startedAt + appSessionMaxMs)))

def HandoffMint.message (m : HandoffMint) : Text :=
  Apps.message handoffPurpose (payloadOf m.members)

/-- Whoever signed a message: a mint, an exchange, or another part of the source. -/
def SignedBy (s : AppsState) (text : Text) : Prop :=
  (∃ m ∈ s.minted, text = m.message) ∨ (∃ x ∈ s.exchanges, text = x.message) ∨
    ∃ other : OtherSeal, text = other.message

structure StoreOk (s : AppsState) : Prop where
  jtis : (s.minted.map HandoffMint.jti).Nodup
  bounds : ∀ m ∈ s.minted, m.exp < 2 ^ 53
  started : ∀ x ∈ s.exchanges, x.startedAt ≤ maxTimeValue
  signed : ∀ text ∈ s.signed, SignedBy s text
  exchanged : ∀ x ∈ s.exchanges, ∃ m ∈ s.minted, x.Of m
  used : ∀ x ∈ s.exchanges,
    (∃ row ∈ s.accounts.appHandoffs.rows, row.jti = x.claims.jti ∧ row.expiresAt = x.claims.exp) ∨
      x.claims.exp ≤ s.clock
  once : ∀ jti, s.exchanges.countP (fun x => decide (x.claims.jti = jti)) ≤ 1

/-- The session is one that was signed for an exchange. -/
def Session (s : AppsState) (c : AppSessionClaims) : Prop :=
  ∃ x ∈ s.exchanges, c = ⟨x.claims.uid, x.claims.sid, x.startedAt + appSessionMaxMs⟩

def FrameOk (s : AppsState) : Frame → Prop
  | .minting m => m ∈ s.minted
  | .checking now _ => now ≤ maxTimeValue
  | .burning now r c => now ≤ maxTimeValue ∧
    ∃ m ∈ s.minted, c = m.claims ∧ r.uid = m.uid ∧ r.pkg = m.pkg ∧ r.state = m.st
  | .signingSession now c => ∃ x ∈ s.exchanges, x.claims = c ∧ x.startedAt = now
  | .checkingAlive now _ c => (now : ℚ) < c.exp ∧ Session s c
  | _ => True

/-- Nothing minted or exchanged is forgotten. -/
structure Grows (s s' : AppsState) : Prop where
  minted : ∀ m ∈ s.minted, m ∈ s'.minted
  exchanges : ∀ x ∈ s.exchanges, x ∈ s'.exchanges

theorem SignedBy.grows {text : Text} (h : SignedBy s text) (hgrows : Grows s s') :
    SignedBy s' text := by
  rcases h with ⟨m, hm, heq⟩ | ⟨x, hx, heq⟩ | hother
  · exact .inl ⟨m, hgrows.minted m hm, heq⟩
  · exact .inr (.inl ⟨x, hgrows.exchanges x hx, heq⟩)
  · exact .inr (.inr hother)

theorem Session.grows {c : AppSessionClaims} (h : Session s c) (hgrows : Grows s s') :
    Session s' c := by
  obtain ⟨x, hx, heq⟩ := h
  exact ⟨x, hgrows.exchanges x hx, heq⟩

theorem FrameOk.grows {f : Frame} (h : FrameOk s f) (hgrows : Grows s s') : FrameOk s' f := by
  cases f with
  | minting m => exact hgrows.minted m h
  | burning now r c =>
    obtain ⟨hnow, m, hm, hbound⟩ := h
    exact ⟨hnow, m, hgrows.minted m hm, hbound⟩
  | signingSession now c =>
    obtain ⟨x, hx, heq⟩ := h
    exact ⟨x, hgrows.exchanges x hx, heq⟩
  | checkingAlive now r c => exact ⟨h.1, h.2.grows hgrows⟩
  | _ => exact h

theorem grows_piece {f : Frame} {i : Input} : Grows s (piece p s f i).1 := by
  cases f with
  | start call =>
    cases call with
    | openApp uid pkg sid st => exact ⟨fun m hm => List.mem_cons_of_mem _ hm, fun x hx => hx⟩
    | appRequest r =>
      simp only [piece]
      split <;> exact ⟨fun m hm => hm, fun x hx => hx⟩
    | sign other => exact ⟨fun m hm => hm, fun x hx => hx⟩
  | burning now r c =>
    simp only [piece]
    split
    · exact ⟨fun m hm => hm, fun x hx => List.mem_cons_of_mem _ hx⟩
    · exact ⟨fun m hm => hm, fun x hx => hx⟩
  | _ =>
    simp only [piece]
    repeat' split
    all_goals exact ⟨fun m hm => hm, fun x hx => hx⟩

/-! ### What the checks show -/

/-- Whoever signed what was signed is known, and its times can be read back. -/
structure Sealed (s : AppsState) : Prop where
  bounds : ∀ m ∈ s.minted, m.exp < 2 ^ 53
  started : ∀ x ∈ s.exchanges, x.startedAt ≤ maxTimeValue
  signed : ∀ text ∈ s.signed, SignedBy s text

theorem StoreOk.isSealed (hs : StoreOk s) : Sealed s := ⟨hs.bounds, hs.started, hs.signed⟩

/-- A handoff that is accepted was minted, for what it is expected to be bound to. -/
theorem Sealed.checked (hs : Sealed s) {now : ℕ} {r : AppRequest} {c : HandoffClaims}
    (hunforged : ∀ payload signature, r.token.splitOn '.' = [payload, signature] →
      fromBase64Url signature = some (p.hmac (message handoffPurpose payload)) →
      message handoffPurpose payload ∈ s.signed)
    (h : checkHandoff p now ⟨r.uid, r.pkg, r.state⟩ r.token = .ok c) :
    ∃ m ∈ s.minted, c = m.claims ∧ r.uid = m.uid ∧ r.pkg = m.pkg ∧ r.state = m.st := by
  obtain ⟨⟨members, hunseal, hread⟩, huid, hpkg, hst⟩ := checkHandoff_ok h
  obtain ⟨payload, signature, hsplit, hvalid, -⟩ := unsealToken_ok hunseal
  rcases hs.signed _ (hunforged payload signature hsplit hvalid) with
    ⟨m, hm, heq⟩ | ⟨x, -, heq⟩ | ⟨other, heq⟩
  · have hmembers := unsealToken_claims hunseal m.keys.1 m.keys.2 fun payload' signature' hsplit' => by
      obtain ⟨rfl, -⟩ := List.cons.inj (hsplit.symm.trans hsplit')
      exact heq
    have hclaims : c = m.claims := readHandoff_members (hs.bounds m hm) (hmembers ▸ hread)
    subst hclaims
    exact ⟨m, hm, rfl, huid.symm, hpkg.symm, hst.symm⟩
  · exact absurd heq.symm (message_session_ne _ _)
  · exact absurd heq.symm (other.message_ne _ (.inl rfl) _)

/-- A session that is accepted was signed for an exchange. -/
theorem Sealed.verified (hs : Sealed s) {now : ℕ} {value : Text} {c : AppSessionClaims}
    (hunforged : ∀ payload signature, value.splitOn '.' = [payload, signature] →
      fromBase64Url signature = some (p.hmac (message sessionPurpose payload)) →
      message sessionPurpose payload ∈ s.signed)
    (h : verifyAppSession p now value = some c) : (now : ℚ) < c.exp ∧ Session s c := by
  obtain ⟨⟨members, hunseal, hread⟩, hlive⟩ := verifyAppSession_ok h
  obtain ⟨payload, signature, hsplit, hvalid, -⟩ := unsealToken_ok hunseal
  rcases hs.signed _ (hunforged payload signature hsplit hvalid) with
    ⟨m, -, heq⟩ | ⟨x, hx, heq⟩ | ⟨other, heq⟩
  · exact absurd heq (message_session_ne _ _)
  · have hkeys := appSession_keys x.claims.uid x.claims.sid (x.startedAt + appSessionMaxMs)
    have hmembers := unsealToken_claims hunseal hkeys.1 hkeys.2 fun payload' signature' hsplit' => by
      obtain ⟨rfl, -⟩ := List.cons.inj (hsplit.symm.trans hsplit')
      exact heq
    have hbound : x.startedAt + appSessionMaxMs < 2 ^ 53 := by
      have hstarted := hs.started x hx
      unfold maxTimeValue at hstarted
      unfold appSessionMaxMs
      omega
    refine ⟨hlive, x, hx, ?_⟩
    have hclaims := readAppSession_members hbound (hmembers ▸ hread)
    push_cast at hclaims
    exact hclaims
  · exact absurd heq.symm (other.message_ne _ (.inr rfl) _)

/-! ### Burns -/

/-- A burn forgets the handoffs that have expired, and succeeds for an id that is not left. -/
theorem mem_appHandoffBurn {accounts : AccountStore} {now : ℕ} {jti : Text} {expiresAt : ℚ} :
    (∀ row ∈ accounts.appHandoffs.rows, (now : ℚ) < row.expiresAt →
      row ∈ (accounts.appHandoffBurn now jti expiresAt).2.appHandoffs.rows) ∧
    ((accounts.appHandoffBurn now jti expiresAt).1 = true →
      ⟨jti, expiresAt⟩ ∈ (accounts.appHandoffBurn now jti expiresAt).2.appHandoffs.rows ∧
      ∀ row ∈ accounts.appHandoffs.rows, row.jti = jti → row.expiresAt ≤ now) := by
  have hkept : ∀ row ∈ accounts.appHandoffs.rows, (now : ℚ) < row.expiresAt →
      row ∈ (accounts.appHandoffs.filter fun row => !decide (row.expiresAt ≤ now)).rows := by
    intro row hrow hlive
    exact Rows.mem_filter.mpr ⟨hrow, by simpa using hlive⟩
  unfold AccountStore.appHandoffBurn
  dsimp only
  split
  · exact ⟨hkept, fun h => absurd h (by simp)⟩
  · rename_i burned hinsert
    refine ⟨fun row hrow hlive => (Rows.mem_insert? hinsert).mpr (.inl (hkept row hrow hlive)),
      fun _ => ⟨(Rows.mem_insert? hinsert).mpr (.inr rfl), fun row hrow hjti => ?_⟩⟩
    by_contra hlive
    have hmem := hkept row hrow (lt_of_not_ge hlive)
    unfold Rows.insert? at hinsert
    split at hinsert
    · exact absurd hinsert (by simp)
    rename_i hnew
    exact hnew (List.mem_map.mpr ⟨row, hmem, hjti⟩)

/-- Where a handoff is burned in time, it was not exchanged before. -/
theorem StoreOk.unexchanged (hs : StoreOk s) {now : ℕ} {m : HandoffMint} (hm : m ∈ s.minted)
    (hclock : s.clock ≤ now) (htimely : (now : ℚ) < m.exp)
    (hburned : (s.accounts.appHandoffBurn now m.jti m.exp).1 = true) :
    ∀ x ∈ s.exchanges, x.claims.jti ≠ m.jti := by
  intro x hx hjti
  obtain ⟨m', hm', hof⟩ := hs.exchanged x hx
  have hsame : m' = m := by
    refine List.inj_on_of_nodup_map hs.jtis hm' hm ?_
    rw [← hjti, hof.claims]
    rfl
  have hexp : x.claims.exp = m.exp := by
    rw [hof.claims, hsame]
    rfl
  rcases hs.used x hx with ⟨row, hrow, hrowJti, hrowExp⟩ | hexpired
  · have hle := (mem_appHandoffBurn.2 hburned).2 row hrow (hrowJti.trans hjti)
    rw [hrowExp, hexp] at hle
    exact absurd htimely (not_lt_of_ge hle)
  · rw [hexp] at hexpired
    have hle : (s.clock : ℚ) ≤ now := by exact_mod_cast hclock
    exact absurd htimely (not_lt_of_ge (hexpired.trans hle))

/-- After a burn every handoff that was exchanged is still listed, or has expired. -/
theorem StoreOk.used_burn (hs : StoreOk s) {now : ℕ} {jti : Text} {expiresAt : ℚ}
    (hclock : s.clock ≤ now) : ∀ x ∈ s.exchanges,
    (∃ row ∈ (s.accounts.appHandoffBurn now jti expiresAt).2.appHandoffs.rows,
      row.jti = x.claims.jti ∧ row.expiresAt = x.claims.exp) ∨ x.claims.exp ≤ now := by
  intro x hx
  rcases hs.used x hx with ⟨row, hrow, hjti, hexp⟩ | hexpired
  · by_cases hlive : (now : ℚ) < row.expiresAt
    · exact .inl ⟨row, mem_appHandoffBurn.1 row hrow hlive, hjti, hexp⟩
    · exact .inr (hexp ▸ le_of_not_gt hlive)
  · have hle : (s.clock : ℚ) ≤ now := by exact_mod_cast hclock
    exact .inr (hexpired.trans hle)

/-! ### The invariant along a run -/

/-- A message more keeps the store. -/
theorem StoreOk.sign (hs : StoreOk s) {text : Text} (h : SignedBy s text) :
    StoreOk { s with signed := text :: s.signed } := by
  refine ⟨hs.jtis, hs.bounds, hs.started, fun other hother => ?_, hs.exchanged, hs.used, hs.once⟩
  rcases List.mem_cons.mp hother with rfl | hold
  · exact h
  · exact hs.signed other hold

/-- A new handoff keeps the store. -/
theorem StoreOk.mint (hs : StoreOk s) {m : HandoffMint} (hnew : ∀ m' ∈ s.minted, m'.jti ≠ m.jti)
    (hexp : m.exp < 2 ^ 53) : StoreOk { s with minted := m :: s.minted } := by
  have hgrows : Grows s { s with minted := m :: s.minted } :=
    ⟨fun m' hm' => List.mem_cons_of_mem _ hm', fun x hx => hx⟩
  refine ⟨?_, fun m' hm' => ?_, hs.started, fun text htext => (hs.signed text htext).grows hgrows,
    fun x hx => ?_, hs.used, hs.once⟩
  · rw [List.map_cons, List.nodup_cons]
    refine ⟨fun hmem => ?_, hs.jtis⟩
    obtain ⟨m', hm', hjti⟩ := List.mem_map.mp hmem
    exact hnew m' hm' hjti
  · rcases List.mem_cons.mp hm' with rfl | hold
    · exact hexp
    · exact hs.bounds m' hold
  · obtain ⟨m', hm', hof⟩ := hs.exchanged x hx
    exact ⟨m', List.mem_cons_of_mem _ hm', hof⟩

/-- A burn in time keeps the store, and the handoff it accepts was not exchanged before. -/
theorem StoreOk.burn (hs : StoreOk s) {now : ℕ} {r : AppRequest} {c : HandoffClaims} {i : Input}
    (hframe : FrameOk s (.burning now r c)) (hclock : s.clock ≤ i.now)
    (htimely : (i.now : ℚ) < c.exp) : StoreOk (piece p s (.burning now r c) i).1 := by
  obtain ⟨hnow, m, hm, rfl, huid, hpkg, hst⟩ := hframe
  have hused := @StoreOk.used_burn s hs i.now m.claims.jti m.claims.exp hclock
  have hbefore : i.now < m.exp := by
    have hlt : (i.now : ℚ) < (m.exp : ℚ) := htimely
    exact_mod_cast hlt
  simp only [piece]
  split
  · rename_i accounts hburn
    have hburned : (s.accounts.appHandoffBurn i.now m.claims.jti m.claims.exp).1 = true := by
      rw [hburn]
    have hnew : ∀ x ∈ s.exchanges, x.claims.jti ≠ m.claims.jti :=
      hs.unexchanged hm hclock htimely hburned
    have hrow := (mem_appHandoffBurn.2 hburned).1
    rw [hburn] at hused hrow
    have hgrows : Grows s { s with
        accounts := accounts, clock := i.now
        exchanges := ⟨r, m.claims, now, i.now⟩ :: s.exchanges } :=
      ⟨fun m' hm' => hm', fun x hx => List.mem_cons_of_mem _ hx⟩
    refine ⟨hs.jtis, hs.bounds, fun x hx => ?_, fun text htext => (hs.signed text htext).grows hgrows,
      fun x hx => ?_, fun x hx => ?_, fun jti => ?_⟩
    · rcases List.mem_cons.mp hx with rfl | hold
      · exact hnow
      · exact hs.started x hold
    · rcases List.mem_cons.mp hx with rfl | hold
      · exact ⟨m, hm, rfl, huid, hpkg, hst, hbefore⟩
      · exact hs.exchanged x hold
    · rcases List.mem_cons.mp hx with rfl | hold
      · exact .inl ⟨_, hrow, rfl, rfl⟩
      · exact hused x hold
    · rw [List.countP_cons]
      by_cases hjti : m.claims.jti = jti
      · have hnone : s.exchanges.countP (fun x => decide (x.claims.jti = jti)) = 0 := by
          rw [List.countP_eq_zero]
          intro x hx
          simpa [← hjti] using hnew x hx
        rw [hnone, if_pos (decide_eq_true hjti)]
      · rw [if_neg (by simpa using hjti)]
        exact hs.once jti
  · rename_i accounts hburn
    rw [hburn] at hused
    exact ⟨hs.jtis, hs.bounds, hs.started,
      fun text htext => (hs.signed text htext).grows ⟨fun _ h => h, fun _ h => h⟩, hs.exchanged, hused,
      hs.once⟩

theorem storeOk_piece (hs : StoreOk s) {f : Frame} {i : Input} (hframe : FrameOk s f)
    (hsupplied : Supplied s i f)
    (htimely : ∀ now r c, f = .burning now r c → (i.now : ℚ) < c.exp) :
    StoreOk (piece p s f i).1 := by
  cases f with
  | start call =>
    cases call with
    | openApp uid pkg sid st =>
      refine hs.mint hsupplied.2 ?_
      have hnow := hsupplied.1
      show i.now + handoffTtlMs < 2 ^ 53
      unfold maxTimeValue at hnow
      unfold handoffTtlMs
      omega
    | appRequest r =>
      simp only [piece]
      split <;> exact hs
    | sign other => exact hs
  | minting m => exact hs.sign (.inl ⟨m, hframe, rfl⟩)
  | burning now r c => exact hs.burn hframe hsupplied.2 (htimely now r c rfl)
  | signingSession now c =>
    obtain ⟨x, hx, rfl, rfl⟩ := hframe
    exact hs.sign (.inr (.inl ⟨x, hx, rfl⟩))
  | signing other => exact hs.sign (.inr (.inr ⟨other, rfl⟩))
  | _ =>
    simp only [piece]
    repeat' split
    all_goals exact hs

/-- What a piece leaves in flight, and what it serves, is backed by what was minted or exchanged. -/
theorem frameOk_piece (hs : StoreOk s) {f : Frame} {i : Input} (hframe : FrameOk s f)
    (hsupplied : Supplied s i f)
    (hunforged : ∀ purpose value payload signature, f.presents? = some (purpose, value) →
      value.splitOn '.' = [payload, signature] →
      fromBase64Url signature = some (p.hmac (message purpose payload)) →
      message purpose payload ∈ s.signed) :
    (∀ f', (piece p s f i).2 = .inl f' → FrameOk (piece p s f i).1 f') ∧
      ∀ c now, (piece p s f i).2 = .inr (.served c now) → (now : ℚ) < c.exp ∧ Session s c := by
  have hrefuse : ∀ r c now, refuse r ≠ .served c now := by
    intro r c now
    unfold refuse
    split <;> simp
  cases f with
  | start call =>
    cases call with
    | openApp uid pkg sid st =>
      refine ⟨fun f' h => ?_, fun c now h => absurd h (by simp [piece])⟩
      obtain rfl := Sum.inl.inj h
      exact List.mem_cons_self
    | appRequest r =>
      have hnow : i.now ≤ maxTimeValue := hsupplied
      simp only [piece]
      split
      · refine ⟨fun f' h => ?_, fun c now h => absurd h (by simp)⟩
        obtain rfl := Sum.inl.inj h
        trivial
      · refine ⟨fun f' h => ?_, fun c now h => absurd h (by simp)⟩
        obtain rfl := Sum.inl.inj h
        exact hnow
    | sign other =>
      refine ⟨fun f' h => ?_, fun c now h => absurd h (by simp [piece])⟩
      obtain rfl := Sum.inl.inj h
      trivial
  | minting m => exact ⟨fun f' h => absurd h (by simp [piece]), fun c now h => absurd h (by simp [piece])⟩
  | checking now r =>
    simp only [piece]
    split
    · refine ⟨fun f' h => ?_, fun c now h => absurd h (by simp)⟩
      obtain rfl := Sum.inl.inj h
      trivial
    · rename_i c hcheck
      refine ⟨fun f' h => ?_, fun c now h => absurd h (by simp)⟩
      obtain rfl := Sum.inl.inj h
      exact ⟨hframe, hs.isSealed.checked (fun payload signature => hunforged _ _ payload signature rfl) hcheck⟩
  | burning now r c =>
    simp only [piece]
    split
    · refine ⟨fun f' h => ?_, fun c now h => absurd h (by simp)⟩
      obtain rfl := Sum.inl.inj h
      exact ⟨_, List.mem_cons_self, rfl, rfl⟩
    · refine ⟨fun f' h => ?_, fun c now h => absurd h (by simp)⟩
      obtain rfl := Sum.inl.inj h
      trivial
  | signingSession now c =>
    exact ⟨fun f' h => absurd h (by simp [piece]), fun c now h => absurd h (by simp [piece])⟩
  | verifyingSession now r =>
    simp only [piece]
    split
    · exact ⟨fun f' h => absurd h (by simp), fun c now h => absurd (Sum.inr.inj h) (hrefuse r c now)⟩
    · rename_i c hverify
      obtain ⟨value, hvalue, hverify⟩ := Option.bind_eq_some_iff.mp hverify
      split
      · exact ⟨fun f' h => absurd h (by simp),
          fun c now h => absurd (Sum.inr.inj h) (hrefuse r c now)⟩
      · refine ⟨fun f' h => ?_, fun c now h => absurd h (by simp)⟩
        obtain rfl := Sum.inl.inj h
        refine hs.isSealed.verified (fun payload signature => hunforged _ value payload signature ?_) hverify
        rw [Frame.presents?, hvalue]
        rfl
  | checkingAlive now r c =>
    simp only [piece]
    split
    · exact ⟨fun f' h => absurd h (by simp), fun c now h => absurd (Sum.inr.inj h) (hrefuse r c now)⟩
    · split
      · exact ⟨fun f' h => absurd h (by simp), fun c now h => absurd h (by simp)⟩
      · refine ⟨fun f' h => absurd h (by simp), fun c' now' h => ?_⟩
        obtain ⟨rfl, rfl⟩ := Ret.served.inj (Sum.inr.inj h)
        exact hframe
  | signing other =>
    exact ⟨fun f' h => absurd h (by simp [piece]), fun c now h => absurd h (by simp [piece])⟩

structure HandoffInv (g : Coop.Config (apps p)) : Prop where
  store : StoreOk g.shared
  frames : ∀ t c f, g.pool t = some (c, f) → FrameOk g.shared f
  served : ∀ call c now, (call, Ret.served c now) ∈ g.log → (now : ℚ) < c.exp ∧ Session g.shared c

section
variable {g g' : Coop.Config (apps p)}

/-- **Step lemma.** -/
theorem HandoffInv.step {e : Coop.Event (apps p)} (hg : HandoffInv g)
    (hguard : Unforged g e ∧ Timely g e) (h : Coop.step g e = some g') : HandoffInv g' := by
  rcases Coop.step_ran h with ⟨t, c, -, -, rfl⟩ | ⟨t, i, c, f, out, rfl, hran⟩
  · refine ⟨hg.store, fun u c' f hu => ?_, hg.served⟩
    rcases Coop.pool_update_cases hu with ⟨-, heq⟩ | ⟨-, hold⟩
    · obtain ⟨-, rfl⟩ := Prod.mk.inj (Option.some.inj heq)
      trivial
    · exact hg.frames u c' f hold
  · have hruns := hran.runs
    simp only [Option.ite_none_right_eq_some, Option.some.injEq] at hruns
    obtain ⟨hsupplied, hpiece⟩ := hruns
    have hframe := hg.frames t c f hran.before
    have hgrows := @grows_piece p g.shared f i
    have hstore := storeOk_piece (p := p) hg.store hframe hsupplied fun now r claims hf =>
      hguard.2 c now r claims (hf ▸ hran.before)
    have hout := frameOk_piece hg.store hframe hsupplied fun purpose value payload signature =>
      hguard.1 c f purpose value payload signature hran.before
    rw [hpiece] at hgrows hstore hout
    refine ⟨hstore, fun u c' f' hu => ?_, fun call c' now hentry => ?_⟩
    · rcases hran.pool u c' f' hu with ⟨-, hold⟩ | ⟨-, -, hnew⟩
      · exact (hg.frames u c' f' hold).grows hgrows
      · exact hout.1 f' hnew
    · have hserved : (now : ℚ) < c'.exp ∧ Session g.shared c' := by
        rcases hran.log _ hentry with hold | ⟨-, hnew⟩
        · exact hg.served call c' now hold
        · exact hout.2 c' now hnew
      exact ⟨hserved.1, hserved.2.grows hgrows⟩

end

theorem HandoffInv.fresh : HandoffInv (freshApps p) := by
  refine ⟨⟨List.nodup_nil, ?_, ?_, ?_, ?_, ?_, fun _ => Nat.zero_le _⟩, ?_, ?_⟩
  all_goals simp [freshApps, Coop.idle]

/-- **Handoffs are exchanged once, as they were minted and in time**, in every run in which each is
    burned before it expires; and no app token passes for one of another purpose. -/
theorem handoffs_timely {g : Coop.Config (apps p)}
    (h : Reaches Coop.step (fun g e => Unforged g e ∧ Timely g e) (freshApps p) g) :
    HandoffsHold g := by
  have hinv := h.invariant HandoffInv (fun _ _ _ hg hguard hstep => hg.step hguard hstep) .fresh
  exact ⟨hinv.store.once, hinv.store.exchanged, hinv.served⟩

/-! ### Two runs -/

/-- `Unforged`, as far as it can be run. -/
def unforgedCheck (g : Coop.Config (apps p)) : Coop.Event (apps p) → Bool
  | .call _ _ => true
  | .resume t _ => (g.pool t).all fun (_, f) => f.presents?.all fun (purpose, value) =>
    match value.splitOn '.' with
    | [payload, signature] =>
      decide (fromBase64Url signature ≠ some (p.hmac (message purpose payload))) ||
        decide (message purpose payload ∈ g.shared.signed)
    | _ => true

theorem unforged_of_check {g : Coop.Config (apps p)} {e : Coop.Event (apps p)}
    (h : unforgedCheck g e = true) : Unforged g e := by
  cases e with
  | call t c => trivial
  | resume t i =>
    intro c f purpose value payload signature hpool hpresents hsplit hvalid
    simp only [unforgedCheck, hpool, hpresents, Option.all_some, hsplit, hvalid, ne_eq,
      not_true_eq_false, decide_false, Bool.false_or, decide_eq_true_eq] at h
    exact h

def timelyCheck (g : Coop.Config (apps p)) : Coop.Event (apps p) → Bool
  | .call _ _ => true
  | .resume t i => (g.pool t).all fun (_, f) =>
    match f with
    | .burning _ _ c => decide ((i.now : ℚ) < c.exp)
    | _ => true

theorem timely_of_check {g : Coop.Config (apps p)} {e : Coop.Event (apps p)}
    (h : timelyCheck g e = true) : Timely g e := by
  cases e with
  | call t c => trivial
  | resume t i =>
    intro c now r claims hpool
    simp only [timelyCheck, hpool, Option.all_some, decide_eq_true_eq] at h
    exact h

/-- A platform whose HMAC adds the characters up. -/
def sumPlatform : Platform where
  hmac := fun text =>
    let sum := (text.map Char.toNat).sum
    UInt8.ofNat sum :: UInt8.ofNat (sum / 256) :: List.replicate 30 0
  length_hmac := fun text => by simp

/-- The outside at an instant. -/
def at_ (now : ℕ) : Input := ⟨now, "j", true, true⟩

def demoMint : HandoffMint := ⟨"u", "notes", "s", "st", handoffTtlMs, "j"⟩

/-- The browser that asked for the handoff brings it. -/
def demoRequest : AppRequest :=
  ⟨"u", "notes", mintHandoff sumPlatform demoMint, "st", none, true⟩

/-- A handoff is minted. -/
def mintRun : List (Coop.Event (apps sumPlatform)) :=
  [.call 0 (.openApp "u" "notes" "s" "st"), .resume 0 (at_ 0), .resume 0 (at_ 0)]

/-- It is exchanged, then replayed in vain; and the session that it was exchanged for is served. -/
def replayRun : List (Coop.Event (apps sumPlatform)) :=
  mintRun ++
  [.call 1 (.appRequest demoRequest), .call 2 (.appRequest demoRequest),
   .resume 1 (at_ 1), .resume 2 (at_ 1), .resume 1 (at_ 1), .resume 2 (at_ 1),
   .resume 1 (at_ 2), .resume 2 (at_ 2), .resume 1 (at_ 2), .resume 2 (at_ 2),
   .call 1 (.appRequest ⟨"u", "notes", [], [],
      some (signAppSession sumPlatform "u" "s" (1 + appSessionMaxMs)), true⟩),
   .resume 1 (at_ 3), .resume 1 (at_ 3), .resume 1 (at_ 3)]

theorem handoffs_timely_replayRun :
    ∃ g, execGuarded Coop.step (fun g e => unforgedCheck g e && timelyCheck g e)
        (freshApps sumPlatform) replayRun = some g ∧
      HandoffsHold g ∧ g.shared.exchanges.length = 1 ∧
      (g.log.countP fun entry => match entry.2 with
        | .served .. => true
        | _ => false) = 1 := by
  have hrun : (execGuarded Coop.step (fun g e => unforgedCheck g e && timelyCheck g e)
      (freshApps sumPlatform) replayRun).map (fun g => (g.shared.exchanges.length,
        g.log.countP fun entry => match entry.2 with
          | .served .. => true
          | _ => false)) = some (1, 1) := by
    decide +kernel
  obtain ⟨g, hg, hseen⟩ := Option.map_eq_some_iff.mp hrun
  obtain ⟨hexchanges, hserved⟩ := Prod.mk.inj hseen
  refine ⟨g, hg, handoffs_timely (reaches_of_execGuarded (fun g e hcheck => ?_) hg), hexchanges,
    hserved⟩
  rw [Bool.and_eq_true] at hcheck
  exact ⟨unforged_of_check hcheck.1, timely_of_check hcheck.2⟩

/-- Two requests bring the handoff in its last millisecond; one is burned in it, the other after. -/
def lateRun : List (Coop.Event (apps sumPlatform)) :=
  mintRun ++
  [.call 1 (.appRequest demoRequest), .call 2 (.appRequest demoRequest),
   .resume 1 (at_ 59999), .resume 2 (at_ 59999), .resume 1 (at_ 59999), .resume 2 (at_ 59999),
   .resume 1 (at_ 59999), .resume 2 (at_ 60000), .resume 1 (at_ 60000), .resume 2 (at_ 60000)]

/-- **A late burn.**  The registry forgets the id when the handoff expires, and so burns it again for a
    request that was checked before: one handoff is exchanged twice, the second time after its expiry. -/
theorem lateBurn :
    ∃ g, execGuarded Coop.step unforgedCheck (freshApps sumPlatform) lateRun = some g ∧
      Reaches Coop.step Unforged (freshApps sumPlatform) g ∧
      g.shared.exchanges.countP (fun x => decide (x.claims.jti = ("j" : Text))) = 2 ∧
      ¬ HandoffsHold g := by
  have hrun : (execGuarded Coop.step unforgedCheck (freshApps sumPlatform) lateRun).map (fun g =>
      g.shared.exchanges.countP fun x => decide (x.claims.jti = ("j" : Text))) = some 2 := by
    decide +kernel
  obtain ⟨g, hg, hcount⟩ := Option.map_eq_some_iff.mp hrun
  refine ⟨g, hg, reaches_of_execGuarded (fun g e => unforged_of_check) hg, hcount, fun h => ?_⟩
  have hle := h.once "j"
  omega

end KodyCelld.Apps
