import KodyCelld.Cells.PackageSave
import KodyCelld.Runs.RunStore

namespace KodyCelld.Email

open KodyCelld.Lib
open KodyCelld.Cells (assertQuota withinQuota)
open KodyCelld.Runs (utcDay)

/-!
# Stored email (`cells/user-cell.ts`)

Messages with their attachments and delivery events, and the day's sends and receives.  A store
refuses a message whose provider id is known; a delivery event may give a message its provider id
later.

* `emailMessageStore`, `emailMessageDelete`, `emailMessageRelease`, `emailMessageSetDelivery` — the
  methods, each with the statements that it runs outside a transaction;
* `emailMessageStore_cases`, `setDelivery_cases` — what a store and a delivery event do;
* `emailMessageStore_throws` — a store that is refused changes nothing;
* `unique_updateMessage` — when an update keeps the identities of the messages apart;
* `deliveryTarget_eq` — a delivery event by provider id reaches the only message with it.

Times are milliseconds, days are counted from the epoch, and JSON columns hold their texts.
-/

inductive Direction where
  | inbound
  | outbound
  deriving DecidableEq, Repr

inductive Classification where
  | inbox
  | quarantine
  deriving DecidableEq, Repr

structure EmailAttachmentMeta where
  id : Text
  filename : Text
  contentType : Text
  size : ℕ
  contentId : Option Text
  inline : Bool
  deriving DecidableEq, Repr

/-- What a message says, in the columns that no method here reads back. -/
structure EmailContent where
  inboxAddress : Option Text
  fromJson : Text
  toJson : Text
  ccJson : Text
  replyToJson : Text
  subject : Text
  messageId : Option Text
  inReplyTo : Option Text
  referencesJson : Text
  headersJson : Text
  packageName : Option Text
  inReplyToMessageId : Option Text
  deriving DecidableEq, Repr

structure EmailMessage where
  id : Text
  direction : Direction
  content : EmailContent
  text : Option Text
  html : Option Text
  attachmentsJson : Text
  classification : Option Classification
  classificationReason : Option Text
  provider : Text
  providerMessageId : Option Text
  deliveryStatus : Option Text
  sizeBytes : ℕ
  receivedAt : ℕ
  createdAt : ℕ
  deriving DecidableEq, Repr

/-- A row of `email_attachments`. -/
structure EmailAttachment where
  id : Text
  messageId : Text
  contentBase64 : Text
  deriving DecidableEq, Repr

structure EmailDeliveryEvent where
  id : Text
  messageId : Text
  provider : Text
  event : Text
  status : Text
  detail : Option Text
  atTime : ℕ
  deriving DecidableEq, Repr

/-- The counts of one day in `usage_daily`. -/
structure EmailUsage where
  day : ℕ
  emailSends : ℕ
  emailReceives : ℕ
  deriving DecidableEq, Repr

structure EmailTables where
  messages : Rows EmailMessage.id
  attachments : Rows EmailAttachment.id
  events : Rows EmailDeliveryEvent.id
  usage : Rows EmailUsage.day

structure EmailQuotas where
  emailSendsPerDay : ℕ
  emailReceivesPerDay : ℕ
  emailMessages : ℕ
  deriving DecidableEq, Repr

/-- The platform under the tables: whether SQLite binds a text, and `JSON.stringify` of the
    attachments of a message. -/
structure EmailHost where
  fits : Text → Bool
  attachmentsJson : List EmailAttachmentMeta → Text

/-- The message that a store is given. -/
structure StoreInput where
  direction : Direction
  content : EmailContent
  text : Option Text
  html : Option Text
  attachments : List (EmailAttachmentMeta × Text)
  classification : Option Classification
  classificationReason : Option Text
  provider : Text
  providerMessageId : Option Text
  deliveryStatus : Option Text
  receivedAt : Option ℕ
  maxBytes : ℕ
  deriving DecidableEq, Repr

structure DeliveryInput where
  id : Option Text
  providerMessageId : Option Text
  provider : Text
  status : Text
  event : Text
  detail : Option Text
  atTime : Option ℕ
  deriving DecidableEq, Repr

/-- What a call returns. -/
inductive EmailResult where
  | message (record : Option EmailMessage)
  | deleted (deleted : Bool)
  deriving DecidableEq, Repr

/-! ### Storing -/

def EmailUsage.zero (day : ℕ) : EmailUsage := ⟨day, 0, 0⟩

def usageFor (s : EmailTables) (day : ℕ) : EmailUsage := (s.usage.find? day).getD (.zero day)

/-- What a store of a direction adds to the counts of its day. -/
def EmailUsage.one (day : ℕ) : Direction → EmailUsage
  | .inbound => ⟨day, 0, 1⟩
  | .outbound => ⟨day, 1, 0⟩

def EmailUsage.add (added u : EmailUsage) : EmailUsage :=
  ⟨u.day, u.emailSends + added.emailSends, u.emailReceives + added.emailReceives⟩

theorem EmailUsage.add_day (added u : EmailUsage) : (added.add u).day = u.day := rfl

/-- `if (input.providerMessageId)`: an id that is there and not empty. -/
def truthy (id : Option Text) : Option Text := id.filter fun text => !text.isEmpty

/-- **The identity of a message**: its provider, its non-empty id there, and its direction. -/
def EmailMessage.identity (row : EmailMessage) : Option (Text × Text × Direction) :=
  (truthy row.providerMessageId).map fun id => (row.provider, id, row.direction)

def StoreInput.identity (input : StoreInput) : Option (Text × Text × Direction) :=
  (truthy input.providerMessageId).map fun id => (input.provider, id, input.direction)

/-- `SELECT id … WHERE provider = ? AND provider_message_id = ? AND direction = ?`, where the id is
    not empty. -/
def duplicateOf (input : StoreInput) (s : EmailTables) : Option EmailMessage :=
  match input.identity with
  | none => none
  | some identity => s.messages.rows.find? fun row => decide (row.identity = some identity)

def StoreInput.sizeBytes (input : StoreInput) : ℕ :=
  (input.text.map utf16Length).getD 0 + (input.html.map utf16Length).getD 0 +
    (input.attachments.map fun item => item.1.size).sum

/-- The quota of the day that a store of this direction is charged to. -/
def assertDayQuota (quotas : EmailQuotas) (usage : EmailUsage) : Direction → Except Thrown Unit
  | .inbound => assertQuota quotas.emailReceivesPerDay usage.emailReceives "Daily inbound email"
  | .outbound => assertQuota quotas.emailSendsPerDay usage.emailSends "Daily outbound email"

def assertNew (input : StoreInput) (s : EmailTables) : Except Thrown Unit :=
  if (duplicateOf input s).isSome then
    .error (.kody "email_duplicate"
      ("Message " ++ input.providerMessageId.getD [] ++ " was already stored.") 409)
  else .ok ()

def assertSize (input : StoreInput) : Except Thrown Unit :=
  if input.maxBytes < input.sizeBytes then
    .error (.kody "email_too_large"
      ("Message is " ++ natText input.sizeBytes ++ " bytes; the stored-message limit is " ++
        natText input.maxBytes ++ " bytes.") 413)
  else .ok ()

/-- Everything `emailMessageStore` does before its first write. -/
def checkStore (quotas : EmailQuotas) (day : ℕ) (input : StoreInput) (s : EmailTables) :
    Except Thrown Unit := do
  assertNew input s
  assertDayQuota quotas (usageFor s day) input.direction
  assertQuota quotas.emailMessages s.messages.rows.length "Stored email"
  assertSize input

/-- The row that a store inserts. -/
def StoreInput.row (host : EmailHost) (input : StoreInput) (id : Text) (now : ℕ) : EmailMessage :=
  { id := id, direction := input.direction, content := input.content, text := input.text
    html := input.html
    attachmentsJson := host.attachmentsJson (input.attachments.map Prod.fst)
    classification := input.classification, classificationReason := input.classificationReason
    provider := input.provider, providerMessageId := input.providerMessageId
    deliveryStatus := input.deliveryStatus, sizeBytes := input.sizeBytes
    receivedAt := input.receivedAt.getD now, createdAt := now }

/-- The texts that the `INSERT` of a message binds. -/
def EmailMessage.texts (row : EmailMessage) : List Text :=
  [row.id, row.content.fromJson, row.content.toJson, row.content.ccJson, row.content.replyToJson,
      row.content.subject, row.content.referencesJson, row.content.headersJson, row.attachmentsJson,
      row.provider] ++
    [row.content.inboxAddress, row.content.messageId, row.content.inReplyTo, row.text, row.html,
      row.classificationReason, row.providerMessageId, row.deliveryStatus, row.content.packageName,
      row.content.inReplyToMessageId].reduceOption

def tooBig : Thrown := .error "string or blob too big"

def clash (column : Text) : Thrown := .error ("UNIQUE constraint failed: " ++ column)

/-- `INSERT` of a row whose texts are bound. -/
def insertRow {ρ : Type} {key : ρ → Text} (host : EmailHost) (texts : List Text) (column : Text)
    (row : ρ) (table : Rows key) : Except Thrown (Rows key) :=
  if texts.all host.fits then
    match table.insert? row with
    | none => .error (clash column)
    | some table => .ok table
  else .error tooBig

/-- The attachments of a message are inserted one by one; what ran before a failure stays. -/
def insertAttachments (host : EmailHost) (messageId : Text) :
    List (EmailAttachmentMeta × Text) → Rows EmailAttachment.id →
    Except Thrown Unit × Rows EmailAttachment.id
  | [], table => (.ok (), table)
  | (item, contentBase64) :: rest, table =>
    match insertRow host [item.id, messageId, contentBase64] "email_attachments.id"
      ⟨item.id, messageId, contentBase64⟩ table with
    | .error e => (.error e, table)
    | .ok table => insertAttachments host messageId rest table

/-- `emailMessageStore` of a message that gets this id; the clock is read for the day and again for
    the row. -/
def emailMessageStore (host : EmailHost) (quotas : EmailQuotas) (startedAt now : ℕ) (id : Text)
    (input : StoreInput) (s : EmailTables) : Except Thrown EmailResult × EmailTables :=
  let day := utcDay startedAt
  match checkStore quotas day input s with
  | .error e => (.error e, s)
  | .ok () =>
    let row := input.row host id now
    match insertRow host row.texts "email_messages.id" row s.messages with
    | .error e => (.error e, s)
    | .ok messages =>
      let inserted := insertAttachments host id input.attachments s.attachments
      let s := { s with messages := messages, attachments := inserted.2 }
      match inserted.1 with
      | .error e => (.error e, s)
      | .ok () =>
        let added := EmailUsage.one day input.direction
        let s := { s with usage := s.usage.upsert added added.add added.add_day }
        (.ok (.message (s.messages.find? id)), s)

/-! ### Deleting, releasing and delivery events -/

def emailMessageDelete (id : Text) (s : EmailTables) : Except Thrown EmailResult × EmailTables :=
  (.ok (.deleted (s.messages.find? id).isSome),
    { s with
      messages := s.messages.filter fun row => decide (row.id ≠ id)
      attachments := s.attachments.filter fun row => decide (row.messageId ≠ id)
      events := s.events.filter fun row => decide (row.messageId ≠ id) })

/-- What an `UPDATE` sets in a message: never its key, its provider or its direction. -/
structure MessageChange where
  set : EmailMessage → EmailMessage
  id : ∀ row, (set row).id = row.id
  provider : ∀ row, (set row).provider = row.provider
  direction : ∀ row, (set row).direction = row.direction

/-- The change of the message with an id. -/
def MessageChange.at (change : MessageChange) (target : Text) : MessageChange where
  set row := if row.id = target then change.set row else row
  id row := by
    split
    · exact change.id row
    · rfl
  provider row := by
    split
    · exact change.provider row
    · rfl
  direction row := by
    split
    · exact change.direction row
    · rfl

/-- `SET classification = 'inbox', classification_reason = 'released'` -/
def release : MessageChange where
  set row := { row with classification := some .inbox, classificationReason := some "released" }
  id _ := rfl
  provider _ := rfl
  direction _ := rfl

/-- `SET delivery_status = ?` -/
def setStatus (status : Text) : MessageChange where
  set row := { row with deliveryStatus := some status }
  id _ := rfl
  provider _ := rfl
  direction _ := rfl

/-- `SET provider_message_id = COALESCE(provider_message_id, ?)` -/
def fillProviderMessageId (providerMessageId : Text) : MessageChange where
  set row :=
    { row with
      providerMessageId := row.providerMessageId.orElse fun _ => some providerMessageId }
  id _ := rfl
  provider _ := rfl
  direction _ := rfl

/-- `UPDATE email_messages SET … WHERE id = ?` -/
def updateMessage (change : MessageChange) (target : Text) (s : EmailTables) : EmailTables :=
  { s with messages := s.messages.map (change.at target).set (change.at target).id }

def emailMessageRelease (id : Text) (s : EmailTables) : Except Thrown EmailResult × EmailTables :=
  match s.messages.find? id with
  | none => (.error (.kody "email_not_found" ("Message \"" ++ id ++ "\" was not found.") 404), s)
  | some _ =>
    let s := updateMessage release id s
    (.ok (.message (s.messages.find? id)), s)

/-- The message that a delivery event is for: the one with the id, or an outbound one with the id
    of the provider. -/
def deliveryTarget (input : DeliveryInput) (s : EmailTables) : Option EmailMessage :=
  match truthy input.id with
  | some id => s.messages.find? id
  | none => s.messages.rows.find? fun row =>
      decide (row.provider = input.provider ∧
        row.providerMessageId = some (input.providerMessageId.getD []) ∧ row.direction = .outbound)

def DeliveryInput.row (input : DeliveryInput) (id messageId : Text) (now : ℕ) :
    EmailDeliveryEvent :=
  { id := id, messageId := messageId, provider := input.provider, event := input.event
    status := input.status, detail := input.detail, atTime := input.atTime.getD now }

def EmailDeliveryEvent.texts (row : EmailDeliveryEvent) : List Text :=
  [row.id, row.messageId, row.provider, row.event, row.status] ++ row.detail.toList

/-- The last statement of a delivery event. -/
def insertEvent (host : EmailHost) (row : EmailDeliveryEvent) (s : EmailTables) :
    Except Thrown EmailResult × EmailTables :=
  match insertRow host row.texts "email_delivery_events.id" row s.events with
  | .error e => (.error e, s)
  | .ok events => (.ok (.message (s.messages.find? row.messageId)), { s with events := events })

def emailMessageSetDelivery (host : EmailHost) (now : ℕ) (eventId : Text) (input : DeliveryInput)
    (s : EmailTables) : Except Thrown EmailResult × EmailTables :=
  match deliveryTarget input s with
  | none => (.ok (.message none), s)
  | some row =>
    if input.id = none ∧ input.providerMessageId = none then (.ok (.message none), s)
    else if host.fits input.status then
      let s := updateMessage (setStatus input.status) row.id s
      match input.providerMessageId with
      | none => insertEvent host (input.row eventId row.id now) s
      | some providerMessageId =>
        if host.fits providerMessageId then
          insertEvent host (input.row eventId row.id now)
            (updateMessage (fillProviderMessageId providerMessageId) row.id s)
        else (.error tooBig, s)
    else (.error tooBig, s)

/-- No two messages share an identity. -/
def UniqueIdentity (messages : Rows EmailMessage.id) : Prop :=
  ∀ row ∈ messages.rows, ∀ other ∈ messages.rows, ∀ identity, row.identity = some identity →
    other.identity = some identity → row.id = other.id

/-! ### What a store does -/

section
variable {host : EmailHost} {quotas : EmailQuotas}

theorem insertRow_ok {ρ : Type} {key : ρ → Text} {texts : List Text} {column : Text} {row : ρ}
    {table table' : Rows key} (h : insertRow host texts column row table = .ok table') :
    table.insert? row = some table' := by
  unfold insertRow at h
  split at h
  · split at h
    · cases h
    · rename_i hinsert
      rw [hinsert, Except.ok.inj h]
  · cases h

/-- The attachments that a store leaves were there before or belong to its message. -/
theorem insertAttachments_mem {id : Text} {items : List (EmailAttachmentMeta × Text)}
    {table : Rows EmailAttachment.id} {row : EmailAttachment}
    (h : row ∈ (insertAttachments host id items table).2.rows) :
    row ∈ table.rows ∨ row.messageId = id := by
  induction items generalizing table with
  | nil => exact .inl h
  | cons item rest ih =>
    simp only [insertAttachments] at h
    split at h
    · exact .inl h
    · rename_i table' hinsert
      rcases ih h with hrow | hrow
      · rcases (Rows.mem_insert? (insertRow_ok hinsert)).mp hrow with hold | rfl
        · exact .inl hold
        · exact .inr rfl
      · exact .inr hrow

/-- **What a store does**: it throws and changes nothing, or it passes its checks and inserts the
    message; then an attachment fails, or the store is counted. -/
theorem emailMessageStore_cases (host : EmailHost) (quotas : EmailQuotas) (startedAt now : ℕ)
    (id : Text) (input : StoreInput) (s : EmailTables) :
    (∃ e, emailMessageStore host quotas startedAt now id input s = (.error e, s)) ∨
    (checkStore quotas (utcDay startedAt) input s = .ok () ∧
      ∃ messages, s.messages.insert? (input.row host id now) = some messages ∧
        let attachments := (insertAttachments host id input.attachments s.attachments).2
        let added := EmailUsage.one (utcDay startedAt) input.direction
        ((∃ e, (insertAttachments host id input.attachments s.attachments).1 = .error e ∧
            emailMessageStore host quotas startedAt now id input s =
              (.error e, { s with messages := messages, attachments := attachments })) ∨
          ∃ result, emailMessageStore host quotas startedAt now id input s =
            (.ok result,
              { s with
                messages := messages, attachments := attachments
                usage := s.usage.upsert added added.add added.add_day }))) := by
  simp only [emailMessageStore]
  cases hcheck : checkStore quotas (utcDay startedAt) input s with
  | error e => exact .inl ⟨e, rfl⟩
  | ok _ =>
    dsimp only
    cases hinsert : insertRow host (input.row host id now).texts "email_messages.id"
        (input.row host id now) s.messages with
    | error e => exact .inl ⟨e, rfl⟩
    | ok messages =>
      right
      refine ⟨rfl, messages, insertRow_ok hinsert, ?_⟩
      dsimp only
      cases hattachments : (insertAttachments host id input.attachments s.attachments).1 with
      | error e => exact .inl ⟨e, rfl, rfl⟩
      | ok _ => exact .inr ⟨_, rfl⟩

theorem checkStore_ok {day : ℕ} {input : StoreInput} {s : EmailTables}
    (h : checkStore quotas day input s = .ok ()) :
    duplicateOf input s = none ∧
      assertDayQuota quotas (usageFor s day) input.direction = .ok () := by
  unfold checkStore at h
  obtain ⟨_, hnew, h⟩ := bind_eq_ok h
  obtain ⟨_, hquota, -⟩ := bind_eq_ok h
  refine ⟨?_, hquota⟩
  unfold assertNew at hnew
  split at hnew
  · cases hnew
  rename_i hnone
  exact Option.not_isSome_iff_eq_none.mp hnone

/-- A store that is no duplicate brings a new identity. -/
theorem not_identity_of_new {input : StoreInput} {s : EmailTables} (h : duplicateOf input s = none)
    {identity : Text × Text × Direction} (hidentity : input.identity = some identity)
    {row : EmailMessage} (hrow : row ∈ s.messages.rows) : row.identity ≠ some identity := by
  unfold duplicateOf at h
  rw [hidentity] at h
  simpa using List.find?_eq_none.mp h row hrow

/-- The counts of a day after a store. -/
theorem usageFor_upsert (s : EmailTables) (messages : Rows EmailMessage.id)
    (attachments : Rows EmailAttachment.id) (startedOn day : ℕ) (direction : Direction) :
    let added := EmailUsage.one startedOn direction
    usageFor
        { s with
          messages := messages, attachments := attachments
          usage := s.usage.upsert added added.add added.add_day } day =
      if startedOn = day then added.add (usageFor s day) else usageFor s day := by
  intro added
  have hday : added.day = startedOn := by
    show (EmailUsage.one startedOn direction).day = startedOn
    cases direction <;> rfl
  simp only [usageFor]
  rw [Rows.find?_upsert, hday]
  split
  · rename_i heq
    subst heq
    cases s.usage.find? startedOn with
    | none =>
      show added = added.add (EmailUsage.zero startedOn)
      cases direction <;> rfl
    | some u => rfl
  · rfl

/-! ### Updates of a message -/

/-- The messages after an insert of a new identity. -/
theorem unique_insert {messages messages' : Rows EmailMessage.id} (h : UniqueIdentity messages)
    {new : EmailMessage} (hinsert : messages.insert? new = some messages')
    (hnew : ∀ identity, new.identity = some identity →
      ∀ row ∈ messages.rows, row.identity ≠ some identity) : UniqueIdentity messages' := by
  intro row hrow other hother identity hidentity hidentity'
  rcases (Rows.mem_insert? hinsert).mp hrow with hold | rfl
  · rcases (Rows.mem_insert? hinsert).mp hother with hold' | rfl
    · exact h row hold other hold' identity hidentity hidentity'
    · exact absurd hidentity (hnew identity hidentity' row hold)
  · rcases (Rows.mem_insert? hinsert).mp hother with hold' | rfl
    · exact absurd hidentity' (hnew identity hidentity other hold')
    · rfl

theorem mem_updateMessage {change : MessageChange} {target : Text} {s : EmailTables}
    {row : EmailMessage} : row ∈ (updateMessage change target s).messages.rows ↔
      ∃ old ∈ s.messages.rows, (change.at target).set old = row :=
  List.mem_map

/-- Another message stays as it is. -/
theorem mem_updateMessage_other {change : MessageChange} {target : Text} {s : EmailTables}
    {row : EmailMessage} (hrow : row ∈ s.messages.rows) (hne : row.id ≠ target) :
    row ∈ (updateMessage change target s).messages.rows :=
  mem_updateMessage.mpr ⟨row, hrow, if_neg hne⟩

theorem owned_updateMessage {change : MessageChange} {target : Text} {s : EmailTables}
    (h : ∀ attachment ∈ s.attachments.rows, ∃ message ∈ s.messages.rows,
      message.id = attachment.messageId) :
    ∀ attachment ∈ (updateMessage change target s).attachments.rows,
      ∃ message ∈ (updateMessage change target s).messages.rows,
        message.id = attachment.messageId := by
  intro attachment hattachment
  obtain ⟨message, hmem, heq⟩ := h attachment hattachment
  refine ⟨(change.at target).set message, mem_updateMessage.mpr ⟨message, hmem, rfl⟩, ?_⟩
  rw [(change.at target).id]
  exact heq

/-- **An update keeps identities unique** where the message that it changes keeps its identity or
    gets one that no message has. -/
theorem unique_updateMessage {change : MessageChange} {target : Text} {s : EmailTables}
    (h : UniqueIdentity s.messages)
    (hchange : ∀ row ∈ s.messages.rows, row.id = target → ∀ identity,
      (change.set row).identity = some identity →
        row.identity = some identity ∨ ∀ other ∈ s.messages.rows, other.identity ≠ some identity) :
    UniqueIdentity (updateMessage change target s).messages := by
  have hat : ∀ row ∈ s.messages.rows, ∀ identity,
      ((change.at target).set row).identity = some identity → row.identity = some identity ∨
        (row.id = target ∧ ∀ other ∈ s.messages.rows, other.identity ≠ some identity) := by
    intro row hrow identity hidentity
    by_cases htarget : row.id = target
    · have hset : (change.at target).set row = change.set row := if_pos htarget
      rw [hset] at hidentity
      rcases hchange row hrow htarget identity hidentity with hkept | hfresh
      · exact .inl hkept
      · exact .inr ⟨htarget, hfresh⟩
    · have hset : (change.at target).set row = row := if_neg htarget
      rw [hset] at hidentity
      exact .inl hidentity
  intro row' hrow' other' hother' identity hidentity hidentity'
  obtain ⟨row, hrow, rfl⟩ := mem_updateMessage.mp hrow'
  obtain ⟨other, hother, rfl⟩ := mem_updateMessage.mp hother'
  rw [(change.at target).id, (change.at target).id]
  rcases hat row hrow identity hidentity with hkept | ⟨htarget, hfresh⟩
  · rcases hat other hother identity hidentity' with hkept' | ⟨-, hfresh'⟩
    · exact h row hrow other hother identity hkept hkept'
    · exact absurd hkept (hfresh' row hrow)
  · rcases hat other hother identity hidentity' with hkept' | ⟨htarget', -⟩
    · exact absurd hkept' (hfresh other hother)
    · rw [htarget, htarget']

/-! ### Delivery events -/

theorem deliveryTarget_mem {input : DeliveryInput} {s : EmailTables} {row : EmailMessage}
    (h : deliveryTarget input s = some row) : row ∈ s.messages.rows := by
  unfold deliveryTarget at h
  split at h
  · exact (Rows.find?_eq_some.mp h).1
  · exact List.mem_of_find?_eq_some h

theorem insertEvent_tables (row : EmailDeliveryEvent) (s : EmailTables) :
    (insertEvent host row s).2.messages = s.messages ∧
      (insertEvent host row s).2.attachments = s.attachments ∧
      (insertEvent host row s).2.usage = s.usage := by
  unfold insertEvent
  split
  · exact ⟨rfl, rfl, rfl⟩
  · exact ⟨rfl, rfl, rfl⟩

/-- A delivery event changes at most the status of its message, and the id where both texts are
    bound. -/
theorem setDelivery_cases (host : EmailHost) (now : ℕ) (eventId : Text) (input : DeliveryInput)
    (s : EmailTables) :
    let after := (emailMessageSetDelivery host now eventId input s).2
    after.messages = s.messages ∧ after.attachments = s.attachments ∧ after.usage = s.usage ∨
      ∃ row, deliveryTarget input s = some row ∧ host.fits input.status = true ∧
        ∃ written, (written = updateMessage (setStatus input.status) row.id s ∨
            ∃ id, input.providerMessageId = some id ∧ host.fits id = true ∧
              written = updateMessage (fillProviderMessageId id) row.id
                (updateMessage (setStatus input.status) row.id s)) ∧
          after.messages = written.messages ∧ after.attachments = written.attachments ∧
          after.usage = written.usage := by
  dsimp only
  unfold emailMessageSetDelivery
  split
  · exact .inl ⟨rfl, rfl, rfl⟩
  · rename_i row htarget
    split
    · exact .inl ⟨rfl, rfl, rfl⟩
    · split
      · rename_i hstatus
        right
        refine ⟨row, htarget, hstatus, ?_⟩
        split
        · exact ⟨_, .inl rfl, insertEvent_tables _ _⟩
        · rename_i id hid
          split
          · rename_i hfits
            exact ⟨_, .inr ⟨id, hid, hfits, rfl⟩, insertEvent_tables _ _⟩
          · exact ⟨_, .inl rfl, rfl, rfl, rfl⟩
      · exact .inl ⟨rfl, rfl, rfl⟩

/-- The identity of a message that may get a provider id. -/
theorem identity_fill (id : Text) (row : EmailMessage) :
    ((fillProviderMessageId id).set row).identity =
      if row.providerMessageId = none then
        (truthy (some id)).map fun id => (row.provider, id, row.direction)
      else row.identity := by
  show (truthy (row.providerMessageId.orElse fun _ => some id)).map
    (fun id => (row.provider, id, row.direction)) = if _ then _ else
      (truthy row.providerMessageId).map fun id => (row.provider, id, row.direction)
  cases row.providerMessageId with
  | none => rfl
  | some old => rfl

theorem setStatus_at (status : Text) (target : Text) (row : EmailMessage) :
    (((setStatus status).at target).set row).identity = row.identity ∧
      (((setStatus status).at target).set row).providerMessageId = row.providerMessageId := by
  show (EmailMessage.identity (if row.id = target then _ else row)) = _ ∧
    EmailMessage.providerMessageId (if row.id = target then _ else row) = _
  split
  · exact ⟨rfl, rfl⟩
  · exact ⟨rfl, rfl⟩

theorem unique_setStatus {s : EmailTables} (h : UniqueIdentity s.messages) (status target : Text) :
    UniqueIdentity (updateMessage (setStatus status) target s).messages := by
  apply unique_updateMessage h
  intro row _ _ identity hidentity
  exact .inl hidentity

/-! ### Whom a delivery event reaches -/

/-- The messages after a delivery event that names a provider id. -/
theorem setDelivery_messages {now : ℕ} {eventId : Text} {input : DeliveryInput} {s : EmailTables}
    {row : EmailMessage} {id : Text} (htarget : deliveryTarget input s = some row)
    (hid : input.providerMessageId = some id) (hstatus : host.fits input.status = true) :
    (emailMessageSetDelivery host now eventId input s).2.messages =
      let written := updateMessage (setStatus input.status) row.id s
      (if host.fits id = true then updateMessage (fillProviderMessageId id) row.id written
        else written).messages := by
  have hgoes : ¬(input.id = none ∧ input.providerMessageId = none) := by
    rintro ⟨-, hnone⟩
    rw [hid] at hnone
    cases hnone
  unfold emailMessageSetDelivery
  rw [htarget]
  simp only [hid, if_neg (hid ▸ hgoes), if_pos hstatus]
  split
  · exact (insertEvent_tables _ _).1
  · rfl

/-- The identity of a message with a provider id that is not empty. -/
theorem identity_eq {row : EmailMessage} {id : Text} (hid : row.providerMessageId = some id)
    (hne : id ≠ []) : row.identity = some (row.provider, id, row.direction) := by
  unfold EmailMessage.identity
  rw [hid]
  cases id with
  | nil => exact absurd rfl hne
  | cons c rest => rfl

/-- **A delivery event by provider id reaches one message**: the only one with that identity. -/
theorem deliveryTarget_eq {input : DeliveryInput} {s : EmailTables} (h : UniqueIdentity s.messages)
    {id : Text} (hnone : truthy input.id = none) (hid : input.providerMessageId = some id)
    (hne : id ≠ []) {row : EmailMessage} (hrow : row ∈ s.messages.rows)
    (hidentity : row.identity = some (input.provider, id, .outbound)) :
    deliveryTarget input s = some row := by
  obtain ⟨key, hkey, heq⟩ := Option.map_eq_some_iff.mp hidentity
  obtain ⟨hprovider, hkeyEq, hdirection⟩ : row.provider = input.provider ∧ key = id ∧
      row.direction = .outbound := by simpa using heq
  subst hkeyEq
  have hrowId : row.providerMessageId = some key := (Option.filter_eq_some_iff.mp hkey).1
  unfold deliveryTarget
  rw [hnone, hid]
  dsimp only
  have hsome : (s.messages.rows.find? fun row =>
      decide (row.provider = input.provider ∧ row.providerMessageId = some ((some key).getD []) ∧
        row.direction = .outbound)).isSome := by
    rw [List.find?_isSome]
    exact ⟨row, hrow, by simp [hprovider, hrowId, hdirection]⟩
  obtain ⟨found, hfound⟩ := Option.isSome_iff_exists.mp hsome
  have hmatches := List.find?_some hfound
  rw [decide_eq_true_eq] at hmatches
  obtain ⟨hp, hi, hd⟩ := hmatches
  have hmem := List.mem_of_find?_eq_some hfound
  have hfoundIdentity : found.identity = some (input.provider, key, .outbound) := by
    rw [identity_eq hi hne, hp, hd]
    rfl
  have hsame : found = row :=
    List.inj_on_of_nodup_map s.messages.nodup hmem hrow
      (h found hmem row hrow _ hfoundIdentity hidentity)
  rw [hfound, hsame]

/-- Every message but the target of a delivery event stays as it is. -/
theorem setDelivery_other {now : ℕ} {eventId : Text} {input : DeliveryInput} {s : EmailTables}
    {row other : EmailMessage} (htarget : deliveryTarget input s = some row)
    (hother : other ∈ s.messages.rows) (hne : other ≠ row) :
    other ∈ (emailMessageSetDelivery host now eventId input s).2.messages.rows := by
  have hids : other.id ≠ row.id := by
    intro hid
    exact hne (List.inj_on_of_nodup_map s.messages.nodup hother (deliveryTarget_mem htarget) hid)
  rcases setDelivery_cases host now eventId input s with
    ⟨hmessages, -⟩ | ⟨row', htarget', -, written, hwritten, hmessages, -⟩
  · rw [hmessages]
    exact hother
  · obtain rfl : row = row' := Option.some.inj (htarget.symm.trans htarget')
    rw [hmessages]
    rcases hwritten with rfl | ⟨id, -, -, rfl⟩
    · exact mem_updateMessage_other hother hids
    · exact mem_updateMessage_other (mem_updateMessage_other hother hids) hids

/-- The target of a delivery event gets its status. -/
theorem setDelivery_target {now : ℕ} {eventId : Text} {input : DeliveryInput} {s : EmailTables}
    {row : EmailMessage} {id : Text} (htarget : deliveryTarget input s = some row)
    (hid : input.providerMessageId = some id) (hstatus : host.fits input.status = true) :
    ∃ after ∈ (emailMessageSetDelivery host now eventId input s).2.messages.rows,
      after.id = row.id ∧ after.deliveryStatus = some input.status := by
  have hset : ((setStatus input.status).at row.id).set row = (setStatus input.status).set row :=
    if_pos rfl
  have hmem : (setStatus input.status).set row ∈
      (updateMessage (setStatus input.status) row.id s).messages.rows :=
    mem_updateMessage.mpr ⟨row, deliveryTarget_mem htarget, hset⟩
  rw [setDelivery_messages htarget hid hstatus]
  dsimp only
  split
  · refine ⟨(fillProviderMessageId id).set ((setStatus input.status).set row), ?_, rfl, rfl⟩
    exact mem_updateMessage.mpr ⟨_, hmem, if_pos rfl⟩
  · exact ⟨_, hmem, rfl, rfl⟩

/-! ### A store that throws -/

/-- An insert fails with an error of the engine. -/
theorem insertRow_error {ρ : Type} {key : ρ → Text} {texts : List Text} {column : Text} {row : ρ}
    {table : Rows key} {e : Thrown} (h : insertRow host texts column row table = .error e) :
    ∃ message, e = .error message := by
  unfold insertRow at h
  split at h
  · split at h
    · exact ⟨_, (Except.error.inj h).symm⟩
    · cases h
  · exact ⟨_, (Except.error.inj h).symm⟩

theorem insertAttachments_error {id : Text} {items : List (EmailAttachmentMeta × Text)}
    {table : Rows EmailAttachment.id} {e : Thrown}
    (h : (insertAttachments host id items table).1 = .error e) : ∃ message, e = .error message := by
  induction items generalizing table with
  | nil => cases h
  | cons item rest ih =>
    simp only [insertAttachments] at h
    split at h
    · rename_i e' hinsert
      rw [← Except.error.inj h]
      exact insertRow_error hinsert
    · exact ih h

/-- The attachments of a store can be inserted: their ids are new, and SQLite binds their texts. -/
structure Insertable (host : EmailHost) (id : Text) (items : List (EmailAttachmentMeta × Text))
    (table : Rows EmailAttachment.id) : Prop where
  distinct : (items.map fun item => item.1.id).Nodup
  fits : ∀ item ∈ items, ([item.1.id, id, item.2].all host.fits) = true
  fresh : ∀ item ∈ items, table.find? item.1.id = none

theorem insertAttachments_ok {id : Text} {items : List (EmailAttachmentMeta × Text)}
    {table : Rows EmailAttachment.id} (h : Insertable host id items table) :
    (insertAttachments host id items table).1 = .ok () := by
  induction items generalizing table with
  | nil => rfl
  | cons item rest ih =>
    have hfresh : table.find? (EmailAttachment.mk item.1.id id item.2).id = none :=
      h.fresh item List.mem_cons_self
    obtain ⟨table', hinsert⟩ := Rows.exists_insert? hfresh
    have hdistinct := List.nodup_cons.mp h.distinct
    have hrow : insertRow host [item.1.id, id, item.2] "email_attachments.id"
        (⟨item.1.id, id, item.2⟩ : EmailAttachment) table = .ok table' := by
      unfold insertRow
      rw [if_pos (h.fits item List.mem_cons_self), hinsert]
    simp only [insertAttachments, hrow]
    apply ih
    refine ⟨hdistinct.2, fun i hi => h.fits i (List.mem_cons_of_mem _ hi), ?_⟩
    intro i hi
    rw [Rows.find?_insert? hinsert, if_neg]
    · exact h.fresh i (List.mem_cons_of_mem _ hi)
    · intro hclash
      exact hdistinct.1 (List.mem_map.mpr ⟨i, hi, hclash.symm⟩)

/-- **A store that throws changes nothing** where it is refused, or its attachments can be
    inserted. -/
theorem emailMessageStore_throws {startedAt now : ℕ} {id : Text} {input : StoreInput}
    {s : EmailTables} {e : Thrown}
    (hthrows : (emailMessageStore host quotas startedAt now id input s).1 = .error e)
    (h : (∃ code message status, e = .kody code message status) ∨
      Insertable host id input.attachments s.attachments) :
    (emailMessageStore host quotas startedAt now id input s).2 = s := by
  rcases emailMessageStore_cases host quotas startedAt now id input s with ⟨e', heq⟩ |
    ⟨-, messages, -, ⟨e', hattachments, heq⟩ | ⟨result, heq⟩⟩
  · rw [heq]
  · -- an attachment fails, with an error of the engine
    rcases h with ⟨code, message, status, rfl⟩ | hinsertable
    · rw [heq] at hthrows
      obtain ⟨_, hengine⟩ := insertAttachments_error hattachments
      rw [Except.error.inj hthrows] at hengine
      cases hengine
    · rw [insertAttachments_ok hinsertable] at hattachments
      cases hattachments
  · rw [heq] at hthrows
    cases hthrows

end

end KodyCelld.Email
