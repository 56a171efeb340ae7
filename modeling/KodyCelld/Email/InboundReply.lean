import KodyCelld.Email.Inbound
import KodyCelld.Email.Outbound

namespace KodyCelld.Email

open KodyCelld.Lib
open KodyCelld.MailBridge (acceptsRecipient normalizeAddress smtpReplyFor smtpReplyFor_accepted)

/-!
# What a sender is told (`mail-bridge/server.mjs`)

The bridge hands a message to Kody with its recipients in a header, and turns the answer into a
reply.  Kody's status is 200 as soon as one user accepts the message, whatever became of it for the
others, and also where it is a duplicate for one and is not accepted by any.

* `forwardToKody`, `onData` — the code;
* `NoLoss` — an accepted message is stored for every owner, and a refusal is told;
* `InGoodHands`, `Acknowledged` — the state before, for one owner and for the reply;
* `no_loss` — no message is lost exactly if a message that is acknowledged is in good hands for every
  owner;
* `lost` — a message that is accepted for one user and over quota for another, one with a known id
  and other content, and one to a name with a comma.
-/

section
variable (l : LowerCase)

/-- A session of the bridge after its recipients: each was accepted. -/
structure SmtpSession (domains : List Text) where
  mailFrom : Option Text
  rcptTo : List Text
  accepted : ∀ recipient ∈ rcptTo, acceptsRecipient l domains recipient = true

end

/-- The data of a message: its size, the size with the trace of the bridge, and what Kody's parser
    makes of it. -/
structure SmtpData where
  size : ℕ
  tracedSize : ℕ
  parsed : Option NormalizedEmail

section
variable (d : Deployment) {domains : List Text}

/-- The texts of the envelope's headers. -/
def envelopeHeaders (session : SmtpSession d.lower domains) : Text × Text :=
  ((session.mailFrom.map (normalizeAddress d.lower)).getD [],
    [','].intercalate (session.rcptTo.map (normalizeAddress d.lower)))

/-- `forwardToKody`; `wire` is what Kody reads of a header, if `fetch` can send it. -/
def forwardToKody (wire : Text → Option Text) (session : SmtpSession d.lower domains)
    (data : SmtpData) (cells : Text → EmailCell) : Option KodyAnswer × (Text → EmailCell) :=
  match wire (envelopeHeaders d session).1, wire (envelopeHeaders d session).2 with
  | some envelopeFrom, some envelopeTo =>
    let (answer, cells) := handleEmailInbound d
      ⟨data.tracedSize, some envelopeFrom, some envelopeTo, data.parsed⟩ cells
    (some answer, cells)
  | _, _ => (none, cells)

/-- `onData`: the reply to the sender. -/
def onData (wire : Text → Option Text) (bridgeMaxBytes : ℕ) (session : SmtpSession d.lower domains)
    (data : SmtpData) (cells : Text → EmailCell) : (ℕ × Text) × (Text → EmailCell) :=
  if bridgeMaxBytes < data.size then
    ((552, "5.3.4 Message exceeds the bridge size limit"), cells)
  else
    match forwardToKody d wire session data cells with
    | (some answer, cells) => (smtpReplyFor answer.status answer.message, cells)
    | (none, cells) => ((451, "4.3.0 Kody is temporarily unavailable, try later"), cells)

/-- The user who owns the inbox of a recipient. -/
def rcptOwner (recipient : Text) : Option Text := ownerOf d (normalizeAddress d.lower recipient)

/-- The refusals of a store that a sender is to hear of. -/
def failureReasons : List Text := ["quota_exceeded", "too_large"]

/-- **No accepted mail is lost**: where the reply is 250, every owner has the message, and it is not
    250 where the store of an owner failed. -/
def NoLoss (wire : Text → Option Text) (bridgeMaxBytes : ℕ) (session : SmtpSession d.lower domains)
    (data : SmtpData) (cells : Text → EmailCell) : Prop :=
  let replied := onData d wire bridgeMaxBytes session data cells
  (replied.1.1 = 250 → ∃ message, data.parsed = some message ∧
    ∀ recipient ∈ session.rcptTo, ∀ userId, rcptOwner d recipient = some userId →
      HasMessage message (replied.2 userId)) ∧
  ∀ answer, (forwardToKody d wire session data cells).1 = some answer →
    ∀ entry ∈ answer.outcome.rejected, entry.reason ∈ failureReasons →
      ∀ recipient ∈ session.rcptTo, ∀ userId, rcptOwner d recipient = some userId →
        ownerOf d entry.address = some userId → replied.1.1 ≠ 250

/-! ### The state before -/

/-- What Kody makes of a message that reaches it. -/
def received (wire : Text → Option Text) (bridgeMaxBytes : ℕ)
    (session : SmtpSession d.lower domains) (data : SmtpData) : Option InboundEmail :=
  if bridgeMaxBytes < data.size then none
  else
    match wire (envelopeHeaders d session).1, wire (envelopeHeaders d session).2 with
    | some envelopeFrom, some envelopeTo =>
      (normalizeRaw d.lower (d.maxBytes * 2) "bridge"
        ⟨data.tracedSize, some envelopeFrom, some envelopeTo, data.parsed⟩).toOption
    | _, _ => none

/-- A message is in good hands for a user: its cell takes it, or has it and only says that it is a
    duplicate or fails; a user who is not visited has it. -/
def InGoodHands (inbound : InboundEmail) (cells : Text → EmailCell) (userId : Text) : Prop :=
  match visitOf d inbound.recipients userId with
  | none => HasMessage inbound.message (cells userId)
  | some address =>
    match visitVerdict d inbound userId address (cells userId) with
    | .takes | .torn => True
    | .duplicate | .fails => HasMessage inbound.message (cells userId)
    | .overQuota | .tooLarge => False

/-- A message is acknowledged: some cell takes it, or it is a duplicate for one and no cell is over
    quota or finds it too large. -/
def Acknowledged (inbound : InboundEmail) (cells : Text → EmailCell) : Prop :=
  let visited := fun v => ∃ userId address, visitOf d inbound.recipients userId = some address ∧
    visitVerdict d inbound userId address (cells userId) = v
  visited .takes ∨ visited .duplicate ∧ ¬visited .overQuota ∧ ¬visited .tooLarge

end

/-! ### What the reply says -/

section
variable {d : Deployment} {domains : List Text} {wire : Text → Option Text} {bridgeMaxBytes : ℕ}
  {session : SmtpSession d.lower domains} {data : SmtpData}

theorem normalizeRaw_error {l : LowerCase} {maxBytes : ℕ} {provider : Text}
    {payload : InboundPayload} {e : Thrown} (h : normalizeRaw l maxBytes provider payload = .error e) :
    ¬(200 ≤ errorStatus e ∧ errorStatus e < 300) := by
  unfold normalizeRaw at h
  split at h
  · rw [← Except.error.inj h]
    show ¬(200 ≤ 413 ∧ 413 < 300)
    decide
  · split at h
    · rw [← Except.error.inj h]
      decide
    · split at h
      · rw [← Except.error.inj h]
        decide
      · simp only [finish] at h
        split at h
        · rw [← Except.error.inj h]
          decide
        · cases h

theorem normalizeRaw_ok {l : LowerCase} {maxBytes : ℕ} {provider : Text}
    {payload : InboundPayload} {inbound : InboundEmail}
    (h : normalizeRaw l maxBytes provider payload = .ok inbound) :
    payload.parsed = some inbound.message := by
  unfold normalizeRaw at h
  split at h
  · cases h
  split at h
  · cases h
  split at h
  · cases h
  rename_i message hparsed
  simp only [finish] at h
  split at h
  · cases h
  · rw [hparsed, ← Except.ok.inj h]

/-- A message that does not reach Kody is refused, and changes nothing. -/
theorem onData_unreceived (cells : Text → EmailCell)
    (h : received d wire bridgeMaxBytes session data = none) :
    (onData d wire bridgeMaxBytes session data cells).1.1 ≠ 250 ∧
      (onData d wire bridgeMaxBytes session data cells).2 = cells := by
  unfold received at h
  unfold onData forwardToKody
  split
  · refine ⟨?_, rfl⟩
    show 552 ≠ 250
    decide
  · rename_i hsize
    rw [if_neg hsize] at h
    have hunsent : (451 : ℕ) ≠ 250 := by decide
    cases hfrom : wire (envelopeHeaders d session).1 with
    | none => exact ⟨hunsent, rfl⟩
    | some envelopeFrom =>
      cases hto : wire (envelopeHeaders d session).2 with
      | none => exact ⟨hunsent, rfl⟩
      | some envelopeTo =>
        rw [hfrom, hto] at h
        dsimp only at h ⊢
        unfold handleEmailInbound
        cases hread : normalizeRaw d.lower (d.maxBytes * 2) "bridge"
            ⟨data.tracedSize, some envelopeFrom, some envelopeTo, data.parsed⟩ with
        | error e =>
          dsimp only
          refine ⟨?_, rfl⟩
          intro hreply
          exact normalizeRaw_error hread (smtpReplyFor_accepted.mp hreply)
        | ok inbound =>
          rw [hread] at h
          cases h

/-- A message that reaches Kody is delivered; its reply is that to the status. -/
theorem onData_received {inbound : InboundEmail} (cells : Text → EmailCell)
    (h : received d wire bridgeMaxBytes session data = some inbound) :
    data.parsed = some inbound.message ∧
      let delivered := deliverInbound d inbound inbound.recipients [] cells
      forwardToKody d wire session data cells =
        (some ⟨inboundStatus delivered.1, [], delivered.1⟩, delivered.2) ∧
      onData d wire bridgeMaxBytes session data cells =
        (smtpReplyFor (inboundStatus delivered.1) [], delivered.2) := by
  unfold received at h
  split at h
  · cases h
  rename_i hsize
  split at h
  · rename_i envelopeFrom envelopeTo hfrom hto
    cases hread : normalizeRaw d.lower (d.maxBytes * 2) "bridge"
        ⟨data.tracedSize, some envelopeFrom, some envelopeTo, data.parsed⟩ with
    | error e =>
      rw [hread] at h
      cases h
    | ok read =>
      rw [hread] at h
      obtain rfl := Option.some.inj h
      have hforward : forwardToKody d wire session data cells =
          (some ⟨inboundStatus (deliverInbound d read read.recipients [] cells).1, [],
            (deliverInbound d read read.recipients [] cells).1⟩,
            (deliverInbound d read read.recipients [] cells).2) := by
        unfold forwardToKody handleEmailInbound
        rw [hfrom, hto]
        dsimp only
        rw [hread]
      refine ⟨normalizeRaw_ok hread, hforward, ?_⟩
      unfold onData
      rw [if_neg hsize, hforward]
  · cases h

/-- When a status says that a message was taken over. -/
theorem inboundStatus_ok (outcome : InboundOutcome) :
    (200 ≤ inboundStatus outcome ∧ inboundStatus outcome < 300) ↔
      outcome.accepted ≠ [] ∨ outcome.hasReason "duplicate" = true ∧
        ¬outcome.hasReason "quota_exceeded" = true ∧ ¬outcome.hasReason "too_large" = true := by
  unfold inboundStatus
  generalize outcome.hasReason "duplicate" = duplicate
  generalize outcome.hasReason "quota_exceeded" = quota
  generalize outcome.hasReason "too_large" = large
  by_cases haccepted : outcome.accepted = []
  · rw [if_pos haccepted]
    cases duplicate <;> cases quota <;> cases large <;> simp [haccepted]
  · rw [if_neg haccepted]
    simp [haccepted]

/-- The verdicts that give a reason are one, for each reason that the status looks for. -/
theorem Verdict.reason_iff (v : Verdict) :
    (v.reason = none ↔ v = .takes) ∧ (v.reason = some "duplicate" ↔ v = .duplicate) ∧
      (v.reason = some "quota_exceeded" ↔ v = .overQuota) ∧
      (v.reason = some "too_large" ↔ v = .tooLarge) := by
  cases v <;> decide

/-- **A delivery is acknowledged** where the state before says so. -/
theorem inboundStatus_accepted (inbound : InboundEmail) (cells : Text → EmailCell) :
    let status := inboundStatus (deliverInbound d inbound inbound.recipients [] cells).1
    (200 ≤ status ∧ status < 300) ↔ Acknowledged d inbound cells := by
  have haccepted := deliverInbound_accepted (d := d) inbound inbound.recipients [] cells
  have hreason : ∀ reason v, ¬(reason = ("foreign_domain" : Text) ∨ reason = "no_inbox") →
      (∀ w : Verdict, w.reason = some reason ↔ w = v) →
      ((deliverInbound d inbound inbound.recipients [] cells).1.hasReason reason = true ↔
        ∃ userId address, visitOf d inbound.recipients userId = some address ∧
          visitVerdict d inbound userId address (cells userId) = v) := by
    intro reason v hplain hverdict
    rw [hasReason_iff hplain]
    unfold Visits
    simp only [newVisit_nil, hverdict]
  have hduplicate := hreason "duplicate" .duplicate (by decide) fun w => w.reason_iff.2.1
  have hquota := hreason "quota_exceeded" .overQuota (by decide) fun w => w.reason_iff.2.2.1
  have hlarge := hreason "too_large" .tooLarge (by decide) fun w => w.reason_iff.2.2.2
  have htakes : ∀ w : Verdict, w.reason = none ↔ w = .takes := fun w => w.reason_iff.1
  unfold Visits at haccepted
  simp only [newVisit_nil, htakes] at haccepted
  dsimp only
  rw [inboundStatus_ok, haccepted, hduplicate, hquota, hlarge]
  rfl

/-- After a delivery a user has the message exactly if its cell inserts it, or had it. -/
theorem has_delivered (inbound : InboundEmail) (cells : Text → EmailCell) (userId : Text) :
    HasMessage inbound.message
        ((deliverInbound d inbound inbound.recipients [] cells).2 userId) ↔
      (∃ address, visitOf d inbound.recipients userId = some address ∧
        (visitVerdict d inbound userId address (cells userId)).Inserts) ∨
      HasMessage inbound.message (cells userId) := by
  rw [deliverInbound_cells, newVisit_nil]
  cases visitOf d inbound.recipients userId with
  | none => simp
  | some address => simpa using visit_has

/-- A user is in good hands exactly if it has the message after the delivery, and its store is not
    refused for a quota or a size. -/
theorem inGoodHands_iff (inbound : InboundEmail) (cells : Text → EmailCell) (userId : Text) :
    InGoodHands d inbound cells userId ↔
      HasMessage inbound.message
          ((deliverInbound d inbound inbound.recipients [] cells).2 userId) ∧
        ∀ address, visitOf d inbound.recipients userId = some address →
          visitVerdict d inbound userId address (cells userId) ≠ .overQuota ∧
            visitVerdict d inbound userId address (cells userId) ≠ .tooLarge := by
  rw [has_delivered]
  unfold InGoodHands
  cases hvisit : visitOf d inbound.recipients userId with
  | none => simp
  | some address =>
    dsimp only
    cases hverdict : visitVerdict d inbound userId address (cells userId) <;>
      simp [hverdict, Verdict.Inserts]

/-- **Whose store failed**: a user who is visited, and whose cell is over quota or finds the message
    too large. -/
theorem failed_iff (inbound : InboundEmail) (cells : Text → EmailCell) (userId : Text) :
    (∃ entry ∈ (deliverInbound d inbound inbound.recipients [] cells).1.rejected,
        entry.reason ∈ failureReasons ∧ ownerOf d entry.address = some userId) ↔
      ∃ address, visitOf d inbound.recipients userId = some address ∧
        (visitVerdict d inbound userId address (cells userId) = .overQuota ∨
          visitVerdict d inbound userId address (cells userId) = .tooLarge) := by
  have hplain : ∀ reason ∈ failureReasons,
      ¬(reason = "foreign_domain" ∨ reason = "no_inbox") := by decide
  constructor
  · rintro ⟨entry, hentry, hreason, howner⟩
    obtain ⟨visited, address, hvisit, haddress, hverdict⟩ :=
      (deliverInbound_refused _ _ _ _ _ (hplain _ hreason)).mp hentry
    rw [newVisit_nil] at hvisit
    -- the user that is visited at the entry's address is its owner
    have hsame : visited = userId := by
      rw [haddress, visitOf_owner hvisit] at howner
      exact Option.some.inj howner
    subst hsame
    have hiff := (visitVerdict d inbound visited address (cells visited)).reason_iff
    refine ⟨address, hvisit, ?_⟩
    rcases List.mem_cons.mp hreason with heq | hreason
    · rw [heq] at hverdict
      exact .inl (hiff.2.2.1.mp hverdict)
    · rw [List.mem_singleton.mp hreason] at hverdict
      exact .inr (hiff.2.2.2.mp hverdict)
  · rintro ⟨address, hvisit, hverdict⟩
    have hiff := (visitVerdict d inbound userId address (cells userId)).reason_iff
    have hreason : ∃ reason ∈ failureReasons,
        (visitVerdict d inbound userId address (cells userId)).reason = some reason := by
      rcases hverdict with hquota | hlarge
      · exact ⟨_, List.mem_cons_self, hiff.2.2.1.mpr hquota⟩
      · exact ⟨_, List.mem_cons_of_mem _ List.mem_cons_self, hiff.2.2.2.mpr hlarge⟩
    obtain ⟨reason, hmem, hreason⟩ := hreason
    refine ⟨⟨address, reason⟩, ?_, hmem, visitOf_owner hvisit⟩
    rw [deliverInbound_refused _ _ _ _ _ (hplain _ hmem)]
    refine ⟨userId, address, ?_, rfl, hreason⟩
    rw [newVisit_nil]
    exact hvisit

/-! ### When no mail is lost -/

/-- **No accepted mail is lost** exactly if a message that is acknowledged is in good hands for every
    owner of a recipient. -/
theorem no_loss (d : Deployment) (wire : Text → Option Text) (bridgeMaxBytes : ℕ)
    (session : SmtpSession d.lower domains) (data : SmtpData) (cells : Text → EmailCell) :
    NoLoss d wire bridgeMaxBytes session data cells ↔
      ∀ inbound, received d wire bridgeMaxBytes session data = some inbound →
        Acknowledged d inbound cells →
        ∀ recipient ∈ session.rcptTo, ∀ userId, rcptOwner d recipient = some userId →
          InGoodHands d inbound cells userId := by
  cases hreceived : received d wire bridgeMaxBytes session data with
  | none =>
    obtain ⟨hreply, -⟩ := onData_unreceived cells hreceived
    constructor
    · intro _ inbound h
      cases h
    · intro _
      exact ⟨fun h => absurd h hreply, fun _ _ _ _ _ _ _ _ _ _ => hreply⟩
  | some inbound =>
    obtain ⟨hparsed, hforward, hdata⟩ := onData_received cells hreceived
    have hreply : (onData d wire bridgeMaxBytes session data cells).1.1 = 250 ↔
        Acknowledged d inbound cells := by
      rw [hdata, smtpReplyFor_accepted]
      exact inboundStatus_accepted inbound cells
    have hafter : (onData d wire bridgeMaxBytes session data cells).2 =
        (deliverInbound d inbound inbound.recipients [] cells).2 := by
      rw [hdata]
    constructor
    · rintro ⟨hstored, htold⟩ other hother hacknowledged recipient hrecipient userId howner
      obtain rfl := Option.some.inj hother
      obtain ⟨message, hmessage, hhas⟩ := hstored (hreply.mpr hacknowledged)
      obtain rfl : inbound.message = message := Option.some.inj (hparsed.symm.trans hmessage)
      rw [inGoodHands_iff, ← hafter]
      refine ⟨hhas recipient hrecipient userId howner, ?_⟩
      -- a refusal for a quota or a size would be among the outcomes, and told
      have hunfailed : ¬∃ address, visitOf d inbound.recipients userId = some address ∧
          (visitVerdict d inbound userId address (cells userId) = .overQuota ∨
            visitVerdict d inbound userId address (cells userId) = .tooLarge) := by
        rw [← failed_iff]
        rintro ⟨entry, hentry, hreason, howns⟩
        exact htold _ (congrArg Prod.fst hforward) entry hentry hreason recipient hrecipient userId
          howner howns (hreply.mpr hacknowledged)
      intro address hvisit
      exact ⟨fun h => hunfailed ⟨address, hvisit, .inl h⟩,
        fun h => hunfailed ⟨address, hvisit, .inr h⟩⟩
    · intro hgood
      constructor
      · intro h
        refine ⟨inbound.message, hparsed, ?_⟩
        intro recipient hrecipient userId howner
        have hin := hgood inbound rfl (hreply.mp h) recipient hrecipient userId howner
        show HasMessage _ ((onData d wire bridgeMaxBytes session data cells).2 userId)
        rw [hafter]
        exact ((inGoodHands_iff inbound cells userId).mp hin).1
      · intro answer hanswer entry hentry hreason recipient hrecipient userId howner howns h
        rw [hforward] at hanswer
        obtain rfl := Option.some.inj hanswer
        have hin := hgood inbound rfl (hreply.mp h) recipient hrecipient userId howner
        obtain ⟨address, hvisit, hverdict⟩ :=
          (failed_iff inbound cells userId).mp ⟨entry, hentry, hreason, howns⟩
        have hclean := ((inGoodHands_iff inbound cells userId).mp hin).2 address hvisit
        rcases hverdict with hquota | hlarge
        · exact hclean.1 hquota
        · exact hclean.2 hlarge

/-- Mail is lost where the reply is 250 and an owner has no message with the subject. -/
theorem not_noLoss {cells : Text → EmailCell} {message : NormalizedEmail}
    (hparsed : data.parsed = some message)
    (hreply : (onData d wire bridgeMaxBytes session data cells).1.1 = 250) {recipient userId : Text}
    (hrecipient : recipient ∈ session.rcptTo) (howner : rcptOwner d recipient = some userId)
    (hlacks : ∀ row ∈ ((onData d wire bridgeMaxBytes session data cells).2 userId).tables.messages.rows,
      row.content.subject ≠ message.subject) :
    ¬NoLoss d wire bridgeMaxBytes session data cells := by
  rintro ⟨hstored, -⟩
  obtain ⟨parsed, hsame, hhas⟩ := hstored hreply
  obtain rfl := Option.some.inj (hparsed.symm.trans hsame)
  obtain ⟨row, hrow, -, -, hsubject, -⟩ := hhas recipient hrecipient userId howner
  exact hlacks row hrow hsubject

end

/-! ### Three losses -/

def aliceInbox : InboxLocal := ⟨"alice", "u2", by decide⟩

/-- A deployment with two inboxes, that receives one message a day for each. -/
def twoInboxes : Deployment where
  host := ⟨fun _ => true, fun _ => "[]"⟩
  lower := asciiLowerCase
  safeIso _ := none
  domain := kodyDomain
  inboxes := [bobInbox, aliceInbox]
  maxBytes := 1000
  quotas _ := ⟨0, 1, 0⟩
  ids _ := "eml_1"
  startedAt _ := 0
  now _ := 0

/-- A letter with an id, of which a sender makes what it likes. -/
def letter : NormalizedEmail where
  fromAddress := ⟨"eve@example.com", none⟩
  toAddresses := []
  cc := []
  replyTo := []
  subject := "Hi"
  messageId := some "m1"
  inReplyTo := none
  references := []
  date := none
  text := some "Hi"
  html := none
  headers := .empty
  attachments := []

def letterData : SmtpData := ⟨10, 20, some letter⟩

def emptyTables : EmailTables :=
  ⟨⟨[], List.nodup_nil⟩, ⟨[], List.nodup_nil⟩, ⟨[], List.nodup_nil⟩, ⟨[], List.nodup_nil⟩⟩

/-- A cell that has received its message of the day. -/
def fullTables : EmailTables := { emptyTables with usage := ⟨[⟨0, 0, 1⟩], by decide⟩ }

/-- Another message with the id of the letter. -/
def otherRow : EmailMessage :=
  { (inboundInput twoInboxes ⟨"bridge", none, [], some "m1", letter⟩ [] none (.inbox, [])).row
      twoInboxes.host "eml_0" 0 with
    content :=
      { (inboundInput twoInboxes ⟨"bridge", none, [], some "m1", letter⟩ [] none
          (.inbox, [])).content with
        subject := "Bye" } }

/-- A cell with that message. -/
def knownTables : EmailTables := { emptyTables with messages := ⟨[otherRow], by decide⟩ }

def sessionTo (rcptTo : List Text)
    (h : ∀ recipient ∈ rcptTo, acceptsRecipient asciiLowerCase ["kody.test"] recipient = true) :
    SmtpSession twoInboxes.lower ["kody.test"] :=
  ⟨some "eve@example.com", rcptTo, h⟩

/-- The cells of the two users. -/
def cellsOf (bob alice : EmailTables) (userId : Text) : EmailCell :=
  ⟨if userId = "u1" then bob else alice, []⟩

def toBoth : SmtpSession twoInboxes.lower ["kody.test"] :=
  sessionTo ["bob@kody.test", "alice@kody.test"] (by decide +kernel)

def toBob : SmtpSession twoInboxes.lower ["kody.test"] :=
  sessionTo ["bob@kody.test"] (by decide +kernel)

/-- One address, which belongs to an inbox and looks like two. -/
def toComma : SmtpSession twoInboxes.lower ["kody.test"] :=
  sessionTo ["bob+a,alice@kody.test"] (by decide +kernel)

/-- A letter that one user takes is acknowledged although the other is over quota; one with a known
    id is acknowledged although it says something else; and one to an address with a comma is
    acknowledged when another inbox takes it. -/
theorem lost :
    ¬NoLoss twoInboxes some 1000 toBoth letterData (cellsOf emptyTables fullTables) ∧
      ¬NoLoss twoInboxes some 1000 toBob letterData (cellsOf knownTables emptyTables) ∧
      ¬NoLoss twoInboxes some 1000 toComma letterData (cellsOf emptyTables emptyTables) := by
  have hbob : rcptOwner twoInboxes "bob@kody.test" = some "u1" := by decide +kernel
  have halice : rcptOwner twoInboxes "alice@kody.test" = some "u2" := by decide +kernel
  have hcomma : rcptOwner twoInboxes "bob+a,alice@kody.test" = some "u1" := by decide +kernel
  refine ⟨?_, ?_, ?_⟩
  · exact not_noLoss rfl (by decide +kernel) (List.mem_cons_of_mem _ List.mem_cons_self) halice
      (by decide +kernel)
  · exact not_noLoss rfl (by decide +kernel) List.mem_cons_self hbob (by decide +kernel)
  · exact not_noLoss rfl (by decide +kernel) List.mem_cons_self hcomma (by decide +kernel)

end KodyCelld.Email
