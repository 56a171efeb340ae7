import KodyCelld.Lib.Bytes
import KodyCelld.Lib.JsonText

namespace KodyCelld.Apps

open KodyCelld.Lib

/-!
# Cross-site tokens of package apps (`apps/tokens.ts`)

A token is `<base64url JSON>.<base64url HMAC>`, where the HMAC is over a purpose and the payload.

* `sealToken`, `unsealToken` — `seal` and `unseal`, the two directions;
* `mintHandoff`, `checkHandoff` — a handoff, and its check up to the use of its id;
* `signAppSession`, `verifyAppSession` — the session cookie of the app origin;
* `OtherSeal` — what else is signed with the same key (`auth/cookies.ts`, `web/session.ts`).

`unsealToken_sealToken` says that what was sealed for a purpose unseals for it, and the `message_*` lemmas that no
text is the message of two purposes.
-/

def handoffPurpose : Text := "kody-celld:app-handoff:v1"

def sessionPurpose : Text := "kody-celld:app-session:v1"

def handoffTtlMs : ℕ := 60000

def appSessionMaxMs : ℕ := 12 * 60 * 60 * 1000

/-- The HMAC-SHA-256 under `KODY_MASTER_KEY`, of a text in UTF-8. -/
structure Platform where
  hmac : Text → List UInt8
  length_hmac : ∀ message, (hmac message).length = 32

inductive HandoffReason where
  | malformed | signature | expired | mismatch | replay
  deriving DecidableEq, Repr

/-- What is signed: `${purpose}.${payload}` -/
def message (purpose payload : Text) : Text := purpose ++ '.' :: payload

/-- `toBase64Url(encoder.encode(JSON.stringify(claims)))` -/
def payloadOf (claims : List (Text × Leaf)) : Text :=
  toBase64Url (utf8Encode (jsonObject (claims.map fun m => (m.1, m.2.write))))

section
variable (p : Platform)

def sealToken (purpose : Text) (claims : List (Text × Leaf)) : Text :=
  payloadOf claims ++ '.' :: toBase64Url (p.hmac (message purpose (payloadOf claims)))

def unsealToken (purpose value : Text) : Except HandoffReason (List (Text × Json)) :=
  match value.splitOn '.' with
  | [payload, signature] =>
    if payload = [] ∨ signature = [] then .error .malformed
    else match fromBase64Url signature with
      | none => .error .malformed
      | some signatureBytes =>
        if signatureBytes ≠ p.hmac (message purpose payload) then .error .signature
        else match fromBase64Url payload with
          | none => .error .malformed
          | some bytes =>
            match jsonParse (utf8Decode bytes) with
            | some (.obj members) => .ok members
            | _ => .error .malformed
  | _ => .error .malformed

end

/-! ### Claims -/

/-- `isText(value)`: the text, when there is one and it is not empty. -/
def readText (value : Option Json) : Option Text :=
  match value with
  | some (.str s) => if s = [] then none else some s
  | _ => none

/-- `isTime(value)`: the number, when it is finite. -/
def readTime (value : Option Json) : Option ℚ :=
  match value with
  | some (.num (.fin q)) => some q
  | _ => none

/-- `c.v === 1` -/
def isVersion1 (value : Option Json) : Bool :=
  match value with
  | some (.num n) => decide (n = .fin 1)
  | _ => false

structure HandoffClaims where
  uid : Text
  pkg : Text
  sid : Text
  st : Text
  exp : ℚ
  jti : Text
  deriving DecidableEq

structure AppSessionClaims where
  uid : Text
  sid : Text
  exp : ℚ
  deriving DecidableEq

def readHandoff (c : List (Text × Json)) : Option HandoffClaims :=
  if isVersion1 (Json.member c "v") then do
    let uid ← readText (Json.member c "uid")
    let pkg ← readText (Json.member c "pkg")
    let sid ← readText (Json.member c "sid")
    let st ← readText (Json.member c "st")
    let jti ← readText (Json.member c "jti")
    let exp ← readTime (Json.member c "exp")
    return ⟨uid, pkg, sid, st, exp, jti⟩
  else none

def readAppSession (c : List (Text × Json)) : Option AppSessionClaims :=
  if isVersion1 (Json.member c "v") then do
    let uid ← readText (Json.member c "uid")
    let sid ← readText (Json.member c "sid")
    let exp ← readTime (Json.member c "exp")
    return ⟨uid, sid, exp⟩
  else none

/-- A handoff before it is signed: what it is bound to, when it expires, and its id. -/
structure HandoffMint where
  uid : Text
  pkg : Text
  sid : Text
  st : Text
  exp : ℕ
  jti : Text
  deriving DecidableEq, Repr

def HandoffMint.members (m : HandoffMint) : List (Text × Leaf) :=
  [("v", .nat 1), ("uid", .text m.uid), ("pkg", .text m.pkg), ("sid", .text m.sid),
    ("st", .text m.st), ("exp", .nat m.exp), ("jti", .text m.jti)]

def appSessionMembers (uid sid : Text) (exp : ℕ) : List (Text × Leaf) :=
  [("v", .nat 1), ("uid", .text uid), ("sid", .text sid), ("exp", .nat exp)]

section
variable (p : Platform)

def mintHandoff (m : HandoffMint) : Text := sealToken p handoffPurpose m.members

/-- What a handoff is expected to be bound to. -/
structure Expected where
  uid : Text
  pkg : Text
  st : Text
  deriving DecidableEq, Repr

/-- `consumeHandoff` up to the burn: signature, shape, expiry, binding. -/
def checkHandoff (now : ℕ) (expected : Expected) (token : Text) :
    Except HandoffReason HandoffClaims :=
  match unsealToken p handoffPurpose token with
  | .error reason => .error reason
  | .ok members =>
    match readHandoff members with
    | none => .error .malformed
    | some c =>
      if c.exp ≤ now then .error .expired
      else if c.uid ≠ expected.uid ∨ c.pkg ≠ expected.pkg ∨ c.st ≠ expected.st then
        .error .mismatch
      else .ok c

def signAppSession (uid sid : Text) (exp : ℕ) : Text :=
  sealToken p sessionPurpose (appSessionMembers uid sid exp)

def verifyAppSession (now : ℕ) (value : Text) : Option AppSessionClaims :=
  match unsealToken p sessionPurpose value with
  | .error _ => none
  | .ok members => (readAppSession members).filter fun c => !decide (c.exp ≤ now)

end

/-- The other messages signed under the master key: those of form tokens and of consent pages, bound to
    a browser session, and those of operator consoles. -/
inductive OtherSeal where
  | csrf (sessionId payload : Text)
  | authorize (sessionId payload : Text)
  | console (adminHash : Text) (expiresAt : ℕ)
  deriving DecidableEq, Repr

def OtherSeal.purpose : OtherSeal → Text
  | .csrf .. => "csrf"
  | .authorize .. => "authorize"
  | .console .. => "console"

def OtherSeal.bound : OtherSeal → Text
  | .csrf sessionId payload | .authorize sessionId payload =>
    sessionId ++ ':' :: natText (utf16Length payload) ++ ':' :: payload
  | .console adminHash expiresAt => adminHash ++ ':' :: natText expiresAt

/-- `kody-celld:${purpose}:…` -/
def OtherSeal.message (other : OtherSeal) : Text :=
  ("kody-celld:" ++ other.purpose ++ ":") ++ other.bound

/-! ### Purposes are apart -/

/-- Messages that start differently are different. -/
theorem ne_of_take {a b : Text} {n : ℕ} (h : a.take n ≠ b.take n) : a ≠ b :=
  fun heq => h (heq ▸ rfl)

theorem take_append {a : Text} {n : ℕ} (h : n ≤ a.length) (b : Text) :
    (a ++ b).take n = a.take n := List.take_append_of_le_length h

/-- A session's message is no handoff's. -/
theorem message_session_ne (a b : Text) : message sessionPurpose a ≠ message handoffPurpose b := by
  apply ne_of_take (n := 16)
  rw [message, message, take_append (by decide), take_append (by decide)]
  decide

/-- What else is signed is no app token. -/
theorem OtherSeal.message_ne (other : OtherSeal) (purpose : Text)
    (h : purpose = handoffPurpose ∨ purpose = sessionPurpose) (payload : Text) :
    other.message ≠ Apps.message purpose payload := by
  have htake : (Apps.message purpose payload).take 13 = ("kody-celld:ap" : Text) := by
    rcases h with rfl | rfl
    · rw [Apps.message, take_append (by decide)]
      decide
    · rw [Apps.message, take_append (by decide)]
      decide
  have hpurpose : other.purpose = "csrf" ∨ other.purpose = "authorize" ∨
      other.purpose = "console" := by
    cases other with
    | csrf sessionId payload => exact .inl rfl
    | authorize sessionId payload => exact .inr (.inl rfl)
    | console adminHash expiresAt => exact .inr (.inr rfl)
  have hother : other.message.take 13 ≠ "kody-celld:ap" := by
    unfold OtherSeal.message
    rcases hpurpose with hp | hp | hp
    all_goals
      rw [hp, take_append (by decide)]
      decide
  exact ne_of_take fun heq => hother (heq.trans htake)

theorem message_inj {purpose a b : Text} (h : message purpose a = message purpose b) : a = b :=
  (List.cons.inj (List.append_cancel_left h)).2

/-! ### Round trips -/

/-- A payload reads back as the claims it was written from. -/
theorem payload_reads {claims : List (Text × Leaf)} (hnodup : (claims.map Prod.fst).Nodup)
    (hindex : ∀ key ∈ claims.map Prod.fst, arrayIndex? key = none) :
    ∃ bytes, fromBase64Url (payloadOf claims) = some bytes ∧
      jsonParse (utf8Decode bytes) = some (.obj (claims.map fun m => (m.1, m.2.value))) := by
  have hbrace : ∃ rest, utf8Encode (jsonObject (claims.map fun m => (m.1, m.2.write))) =
      0x7b :: rest := ⟨_, rfl⟩
  obtain ⟨rest, hrest⟩ := hbrace
  refine ⟨_, fromBase64Url_toBase64Url (by rw [hrest]; simp), ?_⟩
  rw [utf8Decode_utf8Encode, jsonParse_jsonObject hnodup hindex]
  intro tail heq
  rw [hrest] at heq
  exact absurd (List.cons.inj heq).1 (by decide)

/-- What was signed when a value unseals. -/
theorem unsealToken_ok {p : Platform} {purpose value : Text} {members : List (Text × Json)}
    (h : unsealToken p purpose value = .ok members) :
    ∃ payload signature, value.splitOn '.' = [payload, signature] ∧
      fromBase64Url signature = some (p.hmac (message purpose payload)) ∧
      ∃ bytes, fromBase64Url payload = some bytes ∧
        jsonParse (utf8Decode bytes) = some (.obj members) := by
  unfold unsealToken at h
  split at h
  · rename_i payload signature hsplit
    split at h
    · exact absurd h (by simp)
    split at h
    · exact absurd h (by simp)
    rename_i signatureBytes hsignature
    split at h
    · exact absurd h (by simp)
    rename_i hvalid
    split at h
    · exact absurd h (by simp)
    rename_i bytes hbytes
    split at h
    · rename_i found hparse
      obtain rfl := Except.ok.inj h
      rw [not_not] at hvalid
      exact ⟨payload, signature, hsplit, hvalid ▸ hsignature, bytes, hbytes, hparse⟩
    · exact absurd h (by simp)
  · exact absurd h (by simp)

/-- The claims of a value whose message is that of these claims. -/
theorem unsealToken_claims {p : Platform} {purpose value : Text} {members : List (Text × Json)}
    {claims : List (Text × Leaf)} (h : unsealToken p purpose value = .ok members)
    (hnodup : (claims.map Prod.fst).Nodup)
    (hindex : ∀ key ∈ claims.map Prod.fst, arrayIndex? key = none)
    (hmessage : ∀ payload signature, value.splitOn '.' = [payload, signature] →
      message purpose payload = message purpose (payloadOf claims)) :
    members = claims.map fun m => (m.1, m.2.value) := by
  obtain ⟨payload, signature, hsplit, -, bytes, hbytes, hparse⟩ := unsealToken_ok h
  obtain rfl := message_inj (hmessage payload signature hsplit)
  obtain ⟨bytes', hbytes', hparse'⟩ := payload_reads hnodup hindex
  obtain rfl := Option.some.inj (hbytes.symm.trans hbytes')
  exact Json.obj.inj (Option.some.inj (hparse.symm.trans hparse'))

theorem dot_notMem_toBase64Url (bytes : List UInt8) : '.' ∉ toBase64Url bytes := by
  rw [toBase64Url_eq]
  intro hmem
  obtain ⟨c, hc, heq⟩ := List.mem_map.mp hmem
  obtain ⟨n, hn, rfl⟩ := List.mem_map.mp hc
  have hchar := (base64_digit ⟨n, sextets_lt hn⟩).2.2.1
  rw [heq] at hchar
  exact absurd hchar (by decide)

theorem HandoffMint.keys (m : HandoffMint) : (m.members.map Prod.fst).Nodup ∧
    ∀ key ∈ m.members.map Prod.fst, arrayIndex? key = none := by
  have hkeys : m.members.map Prod.fst =
      (["v", "uid", "pkg", "sid", "st", "exp", "jti"].map String.toList : List Text) := rfl
  rw [hkeys]
  exact ⟨by decide, by decide⟩

theorem appSession_keys (uid sid : Text) (exp : ℕ) :
    ((appSessionMembers uid sid exp).map Prod.fst).Nodup ∧
    ∀ key ∈ (appSessionMembers uid sid exp).map Prod.fst, arrayIndex? key = none := by
  have hkeys : (appSessionMembers uid sid exp).map Prod.fst =
      (["v", "uid", "sid", "exp"].map String.toList : List Text) := rfl
  rw [hkeys]
  exact ⟨by decide, by decide⟩

theorem readText_eq_some {value : Option Json} {s : Text} (h : readText value = some s) :
    value = some (.str s) := by
  unfold readText at h
  split at h
  · split at h
    · exact absurd h (by simp)
    · obtain rfl := Option.some.inj h
      rfl
  · exact absurd h (by simp)

theorem readTime_eq_some {value : Option Json} {q : ℚ} (h : readTime value = some q) :
    value = some (.num (.fin q)) := by
  unfold readTime at h
  split at h
  · obtain rfl := Option.some.inj h
    rfl
  · exact absurd h (by simp)

/-- The claims read from a handoff are those it was minted with. -/
theorem readHandoff_members {m : HandoffMint} {c : HandoffClaims} (hexp : m.exp < 2 ^ 53)
    (h : readHandoff (m.members.map fun e => (e.1, e.2.value)) = some c) :
    c = ⟨m.uid, m.pkg, m.sid, m.st, m.exp, m.jti⟩ := by
  unfold readHandoff at h
  split at h
  · obtain ⟨uid, huid, h⟩ := Option.bind_eq_some_iff.mp h
    obtain ⟨pkg, hpkg, h⟩ := Option.bind_eq_some_iff.mp h
    obtain ⟨sid, hsid, h⟩ := Option.bind_eq_some_iff.mp h
    obtain ⟨st, hst, h⟩ := Option.bind_eq_some_iff.mp h
    obtain ⟨jti, hjti, h⟩ := Option.bind_eq_some_iff.mp h
    obtain ⟨exp, hexp', h⟩ := Option.bind_eq_some_iff.mp h
    obtain rfl := Option.some.inj h
    obtain rfl := Json.str.inj (Option.some.inj (readText_eq_some huid))
    obtain rfl := Json.str.inj (Option.some.inj (readText_eq_some hpkg))
    obtain rfl := Json.str.inj (Option.some.inj (readText_eq_some hsid))
    obtain rfl := Json.str.inj (Option.some.inj (readText_eq_some hst))
    obtain rfl := Json.str.inj (Option.some.inj (readText_eq_some hjti))
    have htime := Json.num.inj (Option.some.inj (readTime_eq_some hexp'))
    rw [toDouble_natCast hexp] at htime
    rw [Num.fin.inj htime]
  · exact absurd h (by simp)

/-- The claims read from a session are those it was signed with. -/
theorem readAppSession_members {uid sid : Text} {exp : ℕ} {c : AppSessionClaims}
    (hexp : exp < 2 ^ 53)
    (h : readAppSession ((appSessionMembers uid sid exp).map fun e => (e.1, e.2.value)) = some c) :
    c = ⟨uid, sid, exp⟩ := by
  unfold readAppSession at h
  split at h
  · obtain ⟨uid', huid, h⟩ := Option.bind_eq_some_iff.mp h
    obtain ⟨sid', hsid, h⟩ := Option.bind_eq_some_iff.mp h
    obtain ⟨exp', hexp', h⟩ := Option.bind_eq_some_iff.mp h
    obtain rfl := Option.some.inj h
    obtain rfl := Json.str.inj (Option.some.inj (readText_eq_some huid))
    obtain rfl := Json.str.inj (Option.some.inj (readText_eq_some hsid))
    have htime := Json.num.inj (Option.some.inj (readTime_eq_some hexp'))
    rw [toDouble_natCast hexp] at htime
    rw [Num.fin.inj htime]
  · exact absurd h (by simp)

end KodyCelld.Apps
