import KodyCelld.Email.Addresses
import KodyCelld.Email.Messages

namespace KodyCelld.Email

open KodyCelld.Lib
open KodyCelld.Cells (assertQuota withinQuota)
open KodyCelld.Runs (utcDay)

/-!
# Inbound mail (`email/inbound.ts`, `email/service.ts`)

One message goes to every inbox among its recipients, to each user once, and the outcomes of the
stores are folded into one status.  The parser of messages is third-party; a message comes parsed.

* `normalizeRaw`, `emailClassify`, `deliverInbound`, `handleEmailInbound` — the code;
* `verdict` — what a cell makes of a message, from its state before;
* `emailMessageStore_verdict` — a store follows its verdict;
* `visit_has` — a cell has the message afterwards if the visit inserts it;
* `deliverInbound_cells`, `deliverInbound_refused`, `deliverInbound_accepted` — every owner is
  visited at its first address, and all outcomes are those of the visits.
-/

/-! ### Reading a message -/

/-- What the parser makes of a message. -/
structure NormalizedEmail where
  fromAddress : EmailAddress
  toAddresses : List EmailAddress
  cc : List EmailAddress
  replyTo : List EmailAddress
  subject : Text
  messageId : Option Text
  inReplyTo : Option Text
  references : List Text
  date : Option Text
  text : Option Text
  html : Option Text
  headers : Obj Text
  attachments : List (EmailAttachmentMeta × Text)

structure InboundEmail where
  provider : Text
  envelopeFrom : Option Text
  recipients : List Text
  providerMessageId : Option Text
  message : NormalizedEmail

/-- A delivery of raw bytes, with its envelope in headers; `parsed` is missing where the parser
    throws. -/
structure InboundPayload where
  size : ℕ
  envelopeFrom : Option Text
  envelopeTo : Option Text
  parsed : Option NormalizedEmail

inductive SenderKind where
  | address
  | domain
  deriving DecidableEq, Repr

inductive SenderEffect where
  | allow
  | block
  | quarantine
  deriving DecidableEq, Repr

/-- A rule of a user for senders. -/
structure SenderRule where
  id : Text
  kind : SenderKind
  value : Text
  effect : SenderEffect
  deriving DecidableEq, Repr

/-- What a delivery uses of the cell of a user; the rules are listed by kind and value. -/
structure EmailCell where
  tables : EmailTables
  rules : List SenderRule

/-- A deployment that receives mail: its domain with the inboxes, and what each store of a delivery
    gets from the platform. -/
structure Deployment where
  host : EmailHost
  lower : LowerCase
  /-- `safeIso`: the time that a date stands for. -/
  safeIso : Text → Option ℕ
  domain : EmailDomain
  inboxes : List InboxLocal
  maxBytes : ℕ
  quotas : Text → EmailQuotas
  /-- The id that the message gets in the cell of a user. -/
  ids : Text → Text
  startedAt : Text → ℕ
  now : Text → ℕ

/-- `errorStatus(error)` -/
def errorStatus : Thrown → ℕ
  | .kody _ _ status => status
  | _ => 500

/-- A recipient is an address of the envelope, or of the headers where the envelope has none. -/
def finish (l : LowerCase) (provider : Text) (message : NormalizedEmail)
    (envelopeFrom : Option Text) (envelopeTo : List Text) (providerMessageId : Option Text) :
    Except Thrown InboundEmail :=
  let envelopeTo := (envelopeTo.map l.normalize).filter isEmailAddress
  let recipients :=
    if envelopeTo ≠ [] then envelopeTo
    else (message.toAddresses ++ message.cc).map EmailAddress.address
  if message.fromAddress.address = [] then
    .error (.kody "invalid_email_payload" "The message has no From address.")
  else
    .ok
      { provider := provider, envelopeFrom := (orNull envelopeFrom).map l.normalize
        recipients := recipients.eraseDups, providerMessageId := providerMessageId
        message := message }

/-- `readInboundPayload` of bytes, and `normalizeRaw`. -/
def normalizeRaw (l : LowerCase) (maxBytes : ℕ) (provider : Text) (payload : InboundPayload) :
    Except Thrown InboundEmail :=
  if maxBytes < payload.size then
    .error (.kody "email_too_large" ("Body exceeds " ++ natText maxBytes ++ " bytes.") 413)
  else if payload.size = 0 then .error (.kody "invalid_email_payload" "Empty message.")
  else match payload.parsed with
    | none => .error (.error "The message cannot be parsed.")
    | some message =>
      let envelopeTo := ((payload.envelopeTo.getD []).splitOn ',').map trim
      finish l provider message payload.envelopeFrom
        (envelopeTo.filter fun address => !address.isEmpty) message.messageId

/-! ### Delivering it -/

/-- `emailClassify`: a rule for the address comes before one for its domain. -/
def emailClassify (l : LowerCase) (rules : List SenderRule) (sender : Text) :
    Classification × Text :=
  let address := l.normalize sender
  let domain := (address.splitOn '@').getD 1 []
  let byAddress := rules.find? fun rule =>
    decide (rule.kind = .address) && decide (rule.value = address)
  let byDomain := rules.find? fun rule =>
    decide (rule.kind = .domain) &&
      (decide (rule.value = domain) || ('.' :: rule.value).isSuffixOf domain)
  match byAddress.orElse fun _ => byDomain with
  | none => (.inbox, "no_rule")
  | some rule =>
    match rule.effect with
    | .allow => (.inbox, ("rule:" : Text) ++ rule.id)
    | .block => (.quarantine, ("blocked:" : Text) ++ rule.id)
    | .quarantine => (.quarantine, ("rule:" : Text) ++ rule.id)

/-- `JSON.stringify` of an address. -/
def emailAddressJson (address : EmailAddress) : Text :=
  jsonObject (jsonMember "address" (jsonString address.address) ++
    jsonMember "name" ((address.name.map jsonString).getD "null"))

def addressListJson (list : List EmailAddress) : Text := jsonArray (list.map emailAddressJson)

/-- The headers that are stored: those of the message, with the sender and the tag of the
    envelope. -/
def inboundHeaders (inbound : InboundEmail) (tag : Option Text) : Obj Text :=
  let headers := inbound.message.headers
  let headers := (orNull inbound.envelopeFrom).elim headers (headers.define "return-path")
  (orNull tag).elim headers (headers.define "x-kody-plus-tag")

/-- The message as it is stored for one recipient. -/
def inboundInput (d : Deployment) (inbound : InboundEmail) (address : Text) (tag : Option Text)
    (rule : Classification × Text) : StoreInput where
  direction := .inbound
  content :=
    { inboxAddress := some (d.lower.toLowerCase address)
      fromJson := emailAddressJson inbound.message.fromAddress
      toJson := addressListJson inbound.message.toAddresses
      ccJson := addressListJson inbound.message.cc
      replyToJson := addressListJson inbound.message.replyTo
      subject := inbound.message.subject
      messageId := inbound.message.messageId
      inReplyTo := inbound.message.inReplyTo
      referencesJson := jsonArray (inbound.message.references.map jsonString)
      headersJson := jsonObject
        ((inboundHeaders inbound tag).entries.map fun entry => (entry.1, jsonString entry.2))
      packageName := none
      inReplyToMessageId := none }
  text := inbound.message.text
  html := inbound.message.html
  attachments := inbound.message.attachments
  classification := some rule.1
  classificationReason := some rule.2
  provider := inbound.provider
  providerMessageId := inbound.providerMessageId.orElse fun _ => inbound.message.messageId
  deliveryStatus := none
  receivedAt := (orNull inbound.message.date).bind d.safeIso
  maxBytes := d.maxBytes

/-- What the cell of a user is given for one recipient. -/
def inputFor (d : Deployment) (inbound : InboundEmail) (address : Text) (tag : Option Text)
    (cell : EmailCell) : StoreInput :=
  inboundInput d inbound address tag
    (emailClassify d.lower cell.rules inbound.message.fromAddress.address)

def storeInbound (d : Deployment) (inbound : InboundEmail) (userId address : Text)
    (tag : Option Text) (cell : EmailCell) : Except Thrown EmailResult × EmailCell :=
  let stored := emailMessageStore d.host (d.quotas userId) (d.startedAt userId) (d.now userId)
    (d.ids userId) (inputFor d inbound address tag cell) cell.tables
  (stored.1, { cell with tables := stored.2 })

structure InboundAccepted where
  userId : Text
  inboxAddress : Text
  messageId : Text
  classification : Classification
  deriving DecidableEq, Repr

structure InboundRejected where
  address : Text
  reason : Text
  deriving DecidableEq, Repr

structure InboundOutcome where
  accepted : List InboundAccepted
  rejected : List InboundRejected
  deriving DecidableEq, Repr

/-- The reason for which a store is said to have failed. -/
def rejectReason : Thrown → Text
  | .kody code _ _ =>
    if code = "email_duplicate" then "duplicate"
    else if code = "email_too_large" then "too_large"
    else code
  | _ => "store_failed"

def InboundOutcome.reject (address reason : Text) (outcome : InboundOutcome) : InboundOutcome :=
  { outcome with rejected := ⟨address, reason⟩ :: outcome.rejected }

def InboundOutcome.accept (entry : InboundAccepted) (outcome : InboundOutcome) : InboundOutcome :=
  { outcome with accepted := entry :: outcome.accepted }

/-- The entry of a stored message. -/
def acceptedEntry (userId address : Text) (classification : Classification) :
    EmailResult → InboundAccepted
  | .message (some record) =>
    ⟨userId, record.content.inboxAddress.getD address, record.id, classification⟩
  | _ => ⟨userId, address, [], classification⟩

/-- `inboxResolve` -/
def inboxResolve (d : Deployment) (localPart : Text) : Option Text :=
  (d.inboxes.find? fun inbox => decide (inbox.text = d.lower.normalize localPart)).map
    InboxLocal.userId

/-- The loop of `deliverInbound` over the recipients, with the users seen so far. -/
def deliverInbound (d : Deployment) (inbound : InboundEmail) :
    List Text → List Text → (Text → EmailCell) → InboundOutcome × (Text → EmailCell)
  | [], _, cells => (⟨[], []⟩, cells)
  | address :: rest, seen, cells =>
    match splitInboxAddress d.lower address d.domain.text with
    | none =>
      let (outcome, cells) := deliverInbound d inbound rest seen cells
      (outcome.reject address "foreign_domain", cells)
    | some (localPart, tag) =>
      match inboxResolve d localPart with
      | none =>
        let (outcome, cells) := deliverInbound d inbound rest seen cells
        (outcome.reject address "no_inbox", cells)
      | some userId =>
        if userId ∈ seen then deliverInbound d inbound rest seen cells
        else
          let rule := emailClassify d.lower (cells userId).rules inbound.message.fromAddress.address
          let (result, cell) := storeInbound d inbound userId address tag (cells userId)
          let (outcome, cells) :=
            deliverInbound d inbound rest (userId :: seen) (Function.update cells userId cell)
          match result with
          | .error e => (outcome.reject address (rejectReason e), cells)
          | .ok stored => (outcome.accept (acceptedEntry userId address rule.1 stored), cells)

def InboundOutcome.hasReason (outcome : InboundOutcome) (reason : Text) : Bool :=
  outcome.rejected.any fun entry => decide (entry.reason = reason)

/-- The status of an answer. -/
def inboundStatus (outcome : InboundOutcome) : ℕ :=
  if outcome.accepted = [] then
    if outcome.hasReason "quota_exceeded" then 429
    else if outcome.hasReason "too_large" then 413
    else if outcome.hasReason "duplicate" then 200
    else 404
  else 200

/-- An answer of Kody: the status, the message of an error, and what became of the recipients. -/
structure KodyAnswer where
  status : ℕ
  message : Text
  outcome : InboundOutcome
  deriving DecidableEq, Repr

/-- `handleEmailInbound` of the adapter `bridge`, for a request with the token. -/
def handleEmailInbound (d : Deployment) (payload : InboundPayload) (cells : Text → EmailCell) :
    KodyAnswer × (Text → EmailCell) :=
  match normalizeRaw d.lower (d.maxBytes * 2) "bridge" payload with
  | .error e => (⟨errorStatus e, e.message, ⟨[], []⟩⟩, cells)
  | .ok inbound =>
    let (outcome, cells) := deliverInbound d inbound inbound.recipients [] cells
    (⟨inboundStatus outcome, [], outcome⟩, cells)

/-! ### What a cell makes of a message -/

/-- What becomes of a message in a cell. -/
inductive Verdict where
  | duplicate
  | overQuota
  | tooLarge
  /-- The message cannot be inserted. -/
  | fails
  /-- The message is inserted, and one of its attachments cannot be. -/
  | torn
  | takes
  deriving DecidableEq, Repr

/-- What the checks of a store find in the tables before, if anything. -/
def checkVerdict (d : Deployment) (userId : Text) (input : StoreInput) (s : EmailTables) :
    Option Verdict :=
  let quotas := d.quotas userId
  let receives := (usageFor s (utcDay (d.startedAt userId))).emailReceives
  if (duplicateOf input s).isSome then some .duplicate
  else if !(withinQuota quotas.emailReceivesPerDay receives &&
      withinQuota quotas.emailMessages s.messages.rows.length) then some .overQuota
  else if input.maxBytes < input.sizeBytes then some .tooLarge
  else none

/-- What becomes of a message that passes the checks. -/
def insertVerdict (d : Deployment) (userId : Text) (input : StoreInput) (s : EmailTables) :
    Verdict :=
  let row := input.row d.host (d.ids userId) (d.now userId)
  match insertRow d.host row.texts "email_messages.id" row s.messages with
  | .error _ => .fails
  | .ok _ =>
    match (insertAttachments d.host (d.ids userId) input.attachments s.attachments).1 with
    | .error _ => .torn
    | .ok () => .takes

/-- What becomes of a message, from the tables before. -/
def verdict (d : Deployment) (userId : Text) (input : StoreInput) (s : EmailTables) : Verdict :=
  (checkVerdict d userId input s).getD (insertVerdict d userId input s)

/-- The reason that a verdict gives for not accepting. -/
def Verdict.reason : Verdict → Option Text
  | .duplicate => some "duplicate"
  | .overQuota => some "quota_exceeded"
  | .tooLarge => some "too_large"
  | .fails => some "store_failed"
  | .torn => some "store_failed"
  | .takes => none

/-- Whether the row of the message is there afterwards because of this store. -/
def Verdict.Inserts (v : Verdict) : Prop := v = .takes ∨ v = .torn

instance (v : Verdict) : Decidable v.Inserts := inferInstanceAs (Decidable (_ ∨ _))

/-- **A cell has a message**: an inbound row with its sender, subject and bodies. -/
def HasMessage (message : NormalizedEmail) (cell : EmailCell) : Prop :=
  ∃ row ∈ cell.tables.messages.rows, row.direction = .inbound ∧
    row.content.fromJson = emailAddressJson message.fromAddress ∧
    row.content.subject = message.subject ∧ row.text = message.text ∧ row.html = message.html

/-! ### A store follows its verdict -/

/-- The reason for which a store is not accepted. -/
def refusal : Except Thrown EmailResult → Option Text
  | .ok _ => none
  | .error e => some (rejectReason e)

section
variable (d : Deployment) (userId : Text) (input : StoreInput) (s : EmailTables)

/-- The checks of a store throw what they find. -/
theorem checkStore_verdict (hinbound : input.direction = .inbound) :
    match checkVerdict d userId input s with
    | some v =>
      ∃ e, checkStore (d.quotas userId) (utcDay (d.startedAt userId)) input s = .error e ∧
        some (rejectReason e) = v.reason ∧ ¬v.Inserts
    | none => checkStore (d.quotas userId) (utcDay (d.startedAt userId)) input s = .ok () := by
  unfold checkVerdict checkStore
  dsimp only
  by_cases hnew : (duplicateOf input s).isSome = true
  · have hassert : assertNew input s = .error (.kody "email_duplicate"
        ("Message " ++ input.providerMessageId.getD [] ++ " was already stored.") 409) := if_pos hnew
    rw [if_pos hnew, hassert]
    exact ⟨_, rfl, rfl, by decide⟩
  have hassertNew : assertNew input s = .ok () := if_neg hnew
  rw [if_neg hnew, hassertNew]
  -- the count of the day comes before the count of the messages
  have hday : assertDayQuota (d.quotas userId) (usageFor s (utcDay (d.startedAt userId)))
      input.direction = assertQuota (d.quotas userId).emailReceivesPerDay
        (usageFor s (utcDay (d.startedAt userId))).emailReceives "Daily inbound email" := by
    rw [hinbound]
    rfl
  rw [hday]
  by_cases hreceives : withinQuota (d.quotas userId).emailReceivesPerDay
      (usageFor s (utcDay (d.startedAt userId))).emailReceives = true
  · by_cases hmessages : withinQuota (d.quotas userId).emailMessages s.messages.rows.length = true
    · rw [hreceives, hmessages, assertQuota, if_pos hreceives, assertQuota, if_pos hmessages,
        if_neg (by decide)]
      by_cases hsize : input.maxBytes < input.sizeBytes
      · have hassertSize : assertSize input = .error (.kody "email_too_large" _ 413) := if_pos hsize
        rw [if_pos hsize, hassertSize]
        exact ⟨_, rfl, rfl, by decide⟩
      · have hassertSize : assertSize input = .ok () := if_neg hsize
        rw [if_neg hsize, hassertSize]
        rfl
    · rw [Bool.not_eq_true] at hmessages
      rw [hreceives, hmessages, assertQuota, if_pos hreceives, assertQuota, hmessages,
        if_pos (by decide)]
      exact ⟨_, rfl, rfl, by decide⟩
  · rw [Bool.not_eq_true] at hreceives
    rw [hreceives, assertQuota, hreceives, Bool.false_and, if_pos (by decide)]
    exact ⟨_, rfl, rfl, by decide⟩

/-- **A store follows its verdict**: in its answer and in what is there afterwards. -/
theorem emailMessageStore_verdict (hinbound : input.direction = .inbound) :
    let stored := emailMessageStore d.host (d.quotas userId) (d.startedAt userId) (d.now userId)
      (d.ids userId) input s
    let v := verdict d userId input s
    refusal stored.1 = v.reason ∧ s.messages.rows ⊆ stored.2.messages.rows ∧
      (v.Inserts → input.row d.host (d.ids userId) (d.now userId) ∈ stored.2.messages.rows) ∧
      (¬v.Inserts → stored.2 = s) := by
  have hcheck := checkStore_verdict d userId input s hinbound
  unfold verdict emailMessageStore
  dsimp only
  cases hv : checkVerdict d userId input s with
  | some v =>
    rw [hv] at hcheck
    obtain ⟨e, herror, hreason, hnot⟩ := hcheck
    rw [herror]
    exact ⟨hreason, List.Subset.refl _, fun h => absurd h hnot, fun _ => rfl⟩
  | none =>
    rw [hv] at hcheck
    dsimp only at hcheck
    rw [hcheck, Option.getD_none, insertVerdict]
    dsimp only
    cases hinsert : insertRow d.host (input.row d.host (d.ids userId) (d.now userId)).texts
        "email_messages.id" (input.row d.host (d.ids userId) (d.now userId)) s.messages with
    | error e =>
      obtain ⟨message, rfl⟩ := insertRow_error hinsert
      have hnot : ¬Verdict.fails.Inserts := by decide
      exact ⟨rfl, List.Subset.refl _, fun h => absurd h hnot, fun _ => rfl⟩
    | ok messages =>
      have hmem : ∀ row, row ∈ messages.rows ↔ row ∈ s.messages.rows ∨ row = input.row d.host
          (d.ids userId) (d.now userId) := fun row => Rows.mem_insert? (insertRow_ok hinsert)
      have hsubset : s.messages.rows ⊆ messages.rows := fun row hrow => (hmem row).mpr (.inl hrow)
      have hnew := (hmem _).mpr (.inr rfl)
      dsimp only
      cases hattachments :
          (insertAttachments d.host (d.ids userId) input.attachments s.attachments).1 with
      | error e =>
        obtain ⟨message, rfl⟩ := insertAttachments_error hattachments
        exact ⟨rfl, hsubset, fun _ => hnew, fun h => absurd (.inr rfl) h⟩
      | ok _ => exact ⟨rfl, hsubset, fun _ => hnew, fun h => absurd (.inl rfl) h⟩

end

/-! ### Every owner is visited once -/

section
variable (d : Deployment)

/-- The user whose inbox an address belongs to. -/
def ownerOf (address : Text) : Option Text :=
  (splitInboxAddress d.lower address d.domain.text).bind fun parts => inboxResolve d parts.1

/-- The address at which a delivery visits a user: the first one that belongs to an inbox of it. -/
def visitOf (recipients : List Text) (userId : Text) : Option Text :=
  recipients.find? fun address => decide (ownerOf d address = some userId)

def tagOf (address : Text) : Option Text :=
  (splitInboxAddress d.lower address d.domain.text).bind Prod.snd

/-- What a user's cell makes of a message that comes to an address. -/
def visitVerdict (inbound : InboundEmail) (userId address : Text) (cell : EmailCell) : Verdict :=
  verdict d userId (inputFor d inbound address (tagOf d address) cell) cell.tables

/-- The outcome of the visit of a user, and its cell afterwards. -/
def visit (inbound : InboundEmail) (userId address : Text) (cell : EmailCell) :
    Except Thrown EmailResult × EmailCell :=
  storeInbound d inbound userId address (tagOf d address) cell

variable {d}

theorem visit_refusal {inbound : InboundEmail} {userId address : Text} {cell : EmailCell} :
    refusal (visit d inbound userId address cell).1 =
      (visitVerdict d inbound userId address cell).reason :=
  (emailMessageStore_verdict d userId _ _ rfl).1

/-- **After a visit** a cell has the message exactly if the visit inserts it, or the cell had it. -/
theorem visit_has {inbound : InboundEmail} {userId address : Text} {cell : EmailCell} :
    HasMessage inbound.message (visit d inbound userId address cell).2 ↔
      (visitVerdict d inbound userId address cell).Inserts ∨ HasMessage inbound.message cell := by
  obtain ⟨-, hsubset, hinserts, hkept⟩ := emailMessageStore_verdict d userId
    (inputFor d inbound address (tagOf d address) cell) cell.tables rfl
  constructor
  · intro h
    by_cases hverdict : (visitVerdict d inbound userId address cell).Inserts
    · exact .inl hverdict
    · right
      obtain ⟨row, hrow, hsame⟩ := h
      refine ⟨row, ?_, hsame⟩
      rw [← hkept hverdict]
      exact hrow
  · rintro (hverdict | ⟨row, hrow, hsame⟩)
    · exact ⟨_, hinserts hverdict, rfl, rfl, rfl, rfl, rfl⟩
    · exact ⟨row, hsubset hrow, hsame⟩

theorem acceptedEntry_userId {userId address : Text} {classification : Classification}
    {result : EmailResult} :
    (acceptedEntry userId address classification result).userId = userId := by
  unfold acceptedEntry
  split
  · rfl
  · rfl

theorem visitOf_cons {address : Text} {rest : List Text} {userId : Text} :
    visitOf d (address :: rest) userId =
      if ownerOf d address = some userId then some address else visitOf d rest userId := by
  unfold visitOf
  rw [List.find?_cons]
  by_cases h : ownerOf d address = some userId
  · rw [if_pos h, decide_eq_true h]
  · rw [if_neg h, decide_eq_false h]

/-- A visit is at an address of the user. -/
theorem visitOf_owner {recipients : List Text} {userId address : Text}
    (h : visitOf d recipients userId = some address) : ownerOf d address = some userId := by
  have hmatches := List.find?_some (show recipients.find? _ = some address from h)
  exact of_decide_eq_true hmatches

/-- What a delivery does with its first recipient: nothing, but for an entry in the outcome, or the
    visit of its owner. -/
theorem deliverInbound_cons (inbound : InboundEmail) (address : Text) (rest seen : List Text)
    (cells : Text → EmailCell) :
    ((∀ userId, ownerOf d address = some userId → userId ∈ seen) ∧
      ∃ rejected : List InboundRejected,
        (∀ entry ∈ rejected, entry.reason = "foreign_domain" ∨ entry.reason = "no_inbox") ∧
        deliverInbound d inbound (address :: rest) seen cells =
          let after := deliverInbound d inbound rest seen cells
          ({ after.1 with rejected := rejected ++ after.1.rejected }, after.2)) ∨
    ∃ userId, ownerOf d address = some userId ∧ userId ∉ seen ∧
      let visited := visit d inbound userId address (cells userId)
      let after := deliverInbound d inbound rest (userId :: seen)
        (Function.update cells userId visited.2)
      (deliverInbound d inbound (address :: rest) seen cells).2 = after.2 ∧
      match refusal visited.1 with
      | some reason => (deliverInbound d inbound (address :: rest) seen cells).1 =
          after.1.reject address reason
      | none => ∃ entry, entry.userId = userId ∧
          (deliverInbound d inbound (address :: rest) seen cells).1 = after.1.accept entry := by
  rw [deliverInbound]
  cases hsplit : splitInboxAddress d.lower address d.domain.text with
  | none =>
    left
    have howner : ownerOf d address = none := by
      rw [ownerOf, hsplit]
      rfl
    refine ⟨fun userId h => ?_, [⟨address, "foreign_domain"⟩], ?_, rfl⟩
    · rw [howner] at h
      cases h
    · intro entry hentry
      rw [List.mem_singleton.mp hentry]
      exact .inl rfl
  | some parts =>
    obtain ⟨localPart, tag⟩ := parts
    have howner : ownerOf d address = inboxResolve d localPart := by
      rw [ownerOf, hsplit]
      rfl
    have htag : tagOf d address = tag := by
      rw [tagOf, hsplit]
      rfl
    rw [howner]
    dsimp only
    cases hresolve : inboxResolve d localPart with
    | none =>
      left
      refine ⟨fun userId h => absurd h (Option.some_ne_none userId).symm,
        [⟨address, "no_inbox"⟩], ?_, rfl⟩
      intro entry hentry
      rw [List.mem_singleton.mp hentry]
      exact .inr rfl
    | some userId =>
      dsimp only
      by_cases hseen : userId ∈ seen
      · left
        rw [if_pos hseen]
        refine ⟨fun u h => Option.some.inj h ▸ hseen, [], ?_, rfl⟩
        intro entry hentry
        cases hentry
      · right
        rw [if_neg hseen]
        refine ⟨userId, rfl, hseen, ?_⟩
        unfold visit
        rw [htag]
        cases hresult : (storeInbound d inbound userId address tag (cells userId)).1 with
        | error e => exact ⟨rfl, rfl⟩
        | ok stored => exact ⟨rfl, _, acceptedEntry_userId, rfl⟩

/-! ### Whole deliveries -/

variable (d) in
/-- The address at which a delivery visits a user that it has not seen. -/
def newVisit (recipients seen : List Text) (userId : Text) : Option Text :=
  if userId ∈ seen then none else visitOf d recipients userId

theorem newVisit_nil (recipients : List Text) (userId : Text) :
    newVisit d recipients [] userId = visitOf d recipients userId :=
  if_neg List.not_mem_nil

/-- An address without a new owner makes no visit. -/
theorem newVisit_skip {address : Text} {rest seen : List Text}
    (h : ∀ userId, ownerOf d address = some userId → userId ∈ seen) (userId : Text) :
    newVisit d (address :: rest) seen userId = newVisit d rest seen userId := by
  unfold newVisit
  split
  · rfl
  · rename_i hnew
    rw [visitOf_cons, if_neg fun howner => hnew (h userId howner)]

theorem newVisit_other {address owner : Text} {rest seen : List Text}
    (howner : ownerOf d address = some owner) {userId : Text} (hne : userId ≠ owner) :
    newVisit d (address :: rest) seen userId = newVisit d rest (owner :: seen) userId := by
  have hnot : ownerOf d address ≠ some userId := by
    rw [howner]
    exact fun h => hne (Option.some.inj h).symm
  have hseen : userId ∈ owner :: seen ↔ userId ∈ seen := by
    rw [List.mem_cons, or_iff_right hne]
  unfold newVisit
  rw [visitOf_cons, if_neg hnot]
  simp only [hseen]

/-- The owner of the first address is visited there, and not again. -/
theorem newVisit_owner {address owner : Text} (rest : List Text) {seen : List Text}
    (howner : ownerOf d address = some owner) (hnew : owner ∉ seen) :
    newVisit d (address :: rest) seen owner = some address ∧
      newVisit d rest (owner :: seen) owner = none := by
  constructor
  · rw [newVisit, if_neg hnew, visitOf_cons, if_pos howner]
  · exact if_pos List.mem_cons_self

/-- **The cells after a delivery**: every user that is visited has the cell that its visit leaves, the
    others keep theirs. -/
theorem deliverInbound_cells (inbound : InboundEmail) (recipients seen : List Text)
    (cells : Text → EmailCell) (userId : Text) :
    (deliverInbound d inbound recipients seen cells).2 userId =
      match newVisit d recipients seen userId with
      | some address => (visit d inbound userId address (cells userId)).2
      | none => cells userId := by
  induction recipients generalizing seen cells with
  | nil =>
    have hnone : newVisit d [] seen userId = none := by
      unfold newVisit
      split <;> rfl
    rw [hnone]
    rfl
  | cons address rest ih =>
    rcases deliverInbound_cons inbound address rest seen cells with
      ⟨hskip, rejected, -, hdeliver⟩ | ⟨owner, howner, hnew, hcells, -⟩
    · rw [hdeliver, newVisit_skip hskip]
      exact ih seen cells
    · rw [hcells, ih]
      by_cases huser : userId = owner
      · -- the owner is visited here, and the rest leaves its cell alone
        obtain ⟨hhere, hlater⟩ := newVisit_owner rest howner hnew
        rw [huser, hhere, hlater, Function.update_self]
      · rw [newVisit_other howner huser, Function.update_of_ne huser]

variable (d) in
/-- Some user is visited, and the visit is of this kind. -/
def Visits (P : Text → Text → EmailCell → Prop) (recipients seen : List Text)
    (cells : Text → EmailCell) : Prop :=
  ∃ userId address, newVisit d recipients seen userId = some address ∧
    P userId address (cells userId)

section
variable {P : Text → Text → EmailCell → Prop} {address owner : Text} {rest seen : List Text}
  {cells : Text → EmailCell}

theorem not_visits_nil : ¬Visits d P [] seen cells := by
  rintro ⟨userId, address, hvisit, -⟩
  unfold newVisit at hvisit
  split at hvisit
  · cases hvisit
  · cases hvisit

theorem visits_skip (h : ∀ userId, ownerOf d address = some userId → userId ∈ seen) :
    Visits d P (address :: rest) seen cells ↔ Visits d P rest seen cells := by
  unfold Visits
  simp only [newVisit_skip h]

/-- A visit is the one at the first address, or one of another user later on. -/
theorem visits_owner (howner : ownerOf d address = some owner) (hnew : owner ∉ seen)
    (cell : EmailCell) :
    Visits d P (address :: rest) seen cells ↔ P owner address (cells owner) ∨
      Visits d P rest (owner :: seen) (Function.update cells owner cell) := by
  obtain ⟨hhere, hlater⟩ := newVisit_owner rest howner hnew
  constructor
  · rintro ⟨userId, place, hvisit, hP⟩
    by_cases huser : userId = owner
    · rw [huser, hhere] at hvisit
      rw [huser, ← Option.some.inj hvisit] at hP
      exact .inl hP
    · right
      refine ⟨userId, place, (newVisit_other howner huser).symm.trans hvisit, ?_⟩
      rw [Function.update_of_ne huser]
      exact hP
  · rintro (hP | ⟨userId, place, hvisit, hP⟩)
    · exact ⟨owner, address, hhere, hP⟩
    · have huser : userId ≠ owner := by
        rintro rfl
        rw [hlater] at hvisit
        cases hvisit
      rw [Function.update_of_ne huser] at hP
      exact ⟨userId, place, (newVisit_other howner huser).trans hvisit, hP⟩

end

/-- **Who is refused**: a user whose visit gives the reason, at the address of the visit. -/
theorem deliverInbound_refused (inbound : InboundEmail) (recipients seen : List Text)
    (cells : Text → EmailCell) (entry : InboundRejected)
    (hreason : ¬(entry.reason = "foreign_domain" ∨ entry.reason = "no_inbox")) :
    entry ∈ (deliverInbound d inbound recipients seen cells).1.rejected ↔
      Visits d (fun userId address cell => entry.address = address ∧
        (visitVerdict d inbound userId address cell).reason = some entry.reason)
        recipients seen cells := by
  induction recipients generalizing seen cells with
  | nil => exact ⟨fun h => absurd h List.not_mem_nil, fun h => absurd h not_visits_nil⟩
  | cons address rest ih =>
    rcases deliverInbound_cons inbound address rest seen cells with
      ⟨hskip, rejected, hrejected, hdeliver⟩ | ⟨owner, howner, hnew, -, houtcome⟩
    · have hnot : entry ∉ rejected := fun hmem => hreason (hrejected entry hmem)
      rw [hdeliver, visits_skip hskip, ← ih]
      exact List.mem_append.trans (or_iff_right hnot)
    · rw [visits_owner howner hnew (visit d inbound owner address (cells owner)).2, ← ih]
      rw [visit_refusal] at houtcome
      cases hverdict : (visitVerdict d inbound owner address (cells owner)).reason with
      | none =>
        rw [hverdict] at houtcome
        obtain ⟨accepted, -, houtcome⟩ := houtcome
        rw [houtcome]
        exact (or_iff_right fun h => absurd h.2 (Option.some_ne_none _).symm).symm
      | some reason =>
        rw [hverdict] at houtcome
        rw [houtcome]
        refine List.mem_cons.trans (or_congr_left ?_)
        constructor
        · rintro rfl
          exact ⟨rfl, rfl⟩
        · rintro ⟨haddress, hsame⟩
          rw [Option.some.inj hsame, ← haddress]

/-- **A message is accepted** by a user whose visit gives no reason. -/
theorem deliverInbound_accepted (inbound : InboundEmail) (recipients seen : List Text)
    (cells : Text → EmailCell) :
    (deliverInbound d inbound recipients seen cells).1.accepted ≠ [] ↔
      Visits d (fun userId address cell =>
        (visitVerdict d inbound userId address cell).reason = none) recipients seen cells := by
  induction recipients generalizing seen cells with
  | nil => exact ⟨fun h => absurd rfl h, fun h => absurd h not_visits_nil⟩
  | cons address rest ih =>
    rcases deliverInbound_cons inbound address rest seen cells with
      ⟨hskip, rejected, -, hdeliver⟩ | ⟨owner, howner, hnew, -, houtcome⟩
    · rw [hdeliver, visits_skip hskip, ← ih]
    · rw [visits_owner howner hnew (visit d inbound owner address (cells owner)).2, ← ih]
      rw [visit_refusal] at houtcome
      cases hverdict : (visitVerdict d inbound owner address (cells owner)).reason with
      | none =>
        rw [hverdict] at houtcome
        obtain ⟨accepted, -, houtcome⟩ := houtcome
        rw [houtcome]
        exact iff_of_true (List.cons_ne_nil _ _) (.inl rfl)
      | some reason =>
        rw [hverdict] at houtcome
        rw [houtcome]
        exact (or_iff_right (Option.some_ne_none reason)).symm

/-- A delivery gives a reason exactly if one of its visits does. -/
theorem hasReason_iff {inbound : InboundEmail} {recipients seen : List Text}
    {cells : Text → EmailCell} {reason : Text}
    (hreason : ¬(reason = "foreign_domain" ∨ reason = "no_inbox")) :
    (deliverInbound d inbound recipients seen cells).1.hasReason reason = true ↔
      Visits d (fun userId address cell =>
        (visitVerdict d inbound userId address cell).reason = some reason)
        recipients seen cells := by
  unfold InboundOutcome.hasReason
  rw [List.any_eq_true]
  constructor
  · rintro ⟨entry, hentry, hsame⟩
    rw [decide_eq_true_eq] at hsame
    subst hsame
    obtain ⟨userId, address, hvisit, -, hverdict⟩ :=
      (deliverInbound_refused inbound recipients seen cells entry hreason).mp hentry
    exact ⟨userId, address, hvisit, hverdict⟩
  · rintro ⟨userId, address, hvisit, hverdict⟩
    refine ⟨⟨address, reason⟩, ?_, decide_eq_true rfl⟩
    exact (deliverInbound_refused inbound recipients seen cells _ hreason).mpr
      ⟨userId, address, hvisit, rfl, hverdict⟩

end

end KodyCelld.Email
