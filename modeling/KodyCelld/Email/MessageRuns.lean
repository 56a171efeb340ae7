import KodyCelld.Blobs.BlobQuota
import KodyCelld.Email.Messages

namespace KodyCelld.Email

open KodyCelld.Lib
open KodyCelld.Blobs (Kept assertQuota_room)
open KodyCelld.Runs (utcDay)

/-!
# Runs over stored email (`cells/user-cell.ts`)

A delivery event may give a message a provider id that another one has; a run without such an event
keeps every message apart.

* `CallOk`, `CalmRun` — a delivery event, a run, that gives away no known id;
* `emailInv_step` — one such call keeps the invariant;
* `delivery_clashes` — any other delivery event gives two messages one identity;
* `messages_ok` — a calm run keeps the messages deduplicated and counted.
-/

/-! ### Runs of calls -/

inductive EmailCall where
  | store (startedAt now : ℕ) (id : Text) (input : StoreInput)
  | delete (id : Text)
  | release (id : Text)
  | setDelivery (now : ℕ) (eventId : Text) (input : DeliveryInput)
  deriving DecidableEq, Repr

/-- A call that returned or threw. -/
structure EmailDone where
  call : EmailCall
  result : Except Thrown EmailResult

def emailCall (host : EmailHost) (quotas : EmailQuotas) (call : EmailCall) (s : EmailTables) :
    Except Thrown EmailResult × EmailTables :=
  match call with
  | .store startedAt now id input => emailMessageStore host quotas startedAt now id input s
  | .delete id => emailMessageDelete id s
  | .release id => emailMessageRelease id s
  | .setDelivery now eventId input => emailMessageSetDelivery host now eventId input s

/-- The tables with the calls that led to them, the latest first. -/
structure EmailState where
  tables : EmailTables
  history : List EmailDone

def EmailState.empty : EmailState :=
  ⟨⟨⟨[], List.nodup_nil⟩, ⟨[], List.nodup_nil⟩, ⟨[], List.nodup_nil⟩, ⟨[], List.nodup_nil⟩⟩, []⟩

def emailStep (host : EmailHost) (quotas : EmailQuotas) (s : EmailState) (call : EmailCall) :
    EmailState :=
  let outcome := emailCall host quotas call s.tables
  ⟨outcome.2, ⟨call, outcome.1⟩ :: s.history⟩

/-- The state after a sequence of calls. -/
def emailAfter (host : EmailHost) (quotas : EmailQuotas) (calls : List EmailCall) (s : EmailState) :
    EmailState :=
  calls.foldl (emailStep host quotas) s

/-- A successful store of this direction on this day. -/
def EmailDone.isStore (direction : Direction) (day : ℕ) (d : EmailDone) : Bool :=
  match d.call, d.result with
  | .store startedAt _ _ input, .ok _ =>
    decide (input.direction = direction) && decide (utcDay startedAt = day)
  | _, _ => false

/-- The number of the successful stores of a direction on a day. -/
def stores (direction : Direction) (day : ℕ) (history : List EmailDone) : ℕ :=
  history.countP (EmailDone.isStore direction day)

/-- The message that a delivery event gives its first, non-empty provider id, with that id. -/
def givenId (host : EmailHost) (input : DeliveryInput) (s : EmailTables) :
    Option (EmailMessage × Text) :=
  match deliveryTarget input s, truthy input.providerMessageId with
  | some row, some id =>
    if row.providerMessageId = none ∧ host.fits input.status = true ∧ host.fits id = true then
      some (row, id)
    else none
  | _, _ => none

/-- **A delivery event gives away no known id**: no message of the same provider and direction has
    the id that it gives. -/
def CallOk (host : EmailHost) (s : EmailTables) : EmailCall → Prop
  | .setDelivery _ _ input =>
    ∀ row id, givenId host input s = some (row, id) →
      ∀ other ∈ s.messages.rows, other.identity ≠ some (row.provider, id, row.direction)
  | _ => True

/-- Every delivery event of a run gives away no known id. -/
def CalmRun (host : EmailHost) (quotas : EmailQuotas) : List EmailCall → EmailState → Prop
  | [], _ => True
  | call :: rest, s =>
    CallOk host s.tables call ∧ CalmRun host quotas rest (emailStep host quotas s call)

/-- The invariant of the tables and their history. -/
structure EmailInv (quotas : EmailQuotas) (s : EmailState) : Prop where
  unique : UniqueIdentity s.tables.messages
  owned : ∀ attachment ∈ s.tables.attachments.rows, ∃ message ∈ s.tables.messages.rows,
    message.id = attachment.messageId
  counted : ∀ day, usageFor s.tables day =
    ⟨day, stores .outbound day s.history, stores .inbound day s.history⟩
  sends : ∀ day, Kept quotas.emailSendsPerDay (usageFor s.tables day).emailSends
  receives : ∀ day, Kept quotas.emailReceivesPerDay (usageFor s.tables day).emailReceives

section
variable {host : EmailHost} {quotas : EmailQuotas}

/-! ### One call -/

theorem emailInv_empty (quotas : EmailQuotas) : EmailInv quotas .empty := by
  constructor
  · intro row hrow
    cases hrow
  · intro attachment hattachment
    cases hattachment
  · exact fun _ => rfl
  · exact fun _ => .inr (Nat.zero_le _)
  · exact fun _ => .inr (Nat.zero_le _)

/-- A call that is no successful store is not counted. -/
theorem stores_cons {direction : Direction} {day : ℕ} {d : EmailDone} {history : List EmailDone}
    (h : d.isStore direction day = false) :
    stores direction day (d :: history) = stores direction day history := by
  unfold stores
  rw [List.countP_cons_of_neg]
  simp [h]

/-- A call that counts nothing and leaves the counts as they are. -/
theorem EmailInv.uncounted {s : EmailState} (h : EmailInv quotas s) {d : EmailDone}
    (hd : ∀ direction day, d.isStore direction day = false) {tables : EmailTables}
    (husage : tables.usage = s.tables.usage) (hunique : UniqueIdentity tables.messages)
    (howned : ∀ attachment ∈ tables.attachments.rows, ∃ message ∈ tables.messages.rows,
      message.id = attachment.messageId) :
    EmailInv quotas ⟨tables, d :: s.history⟩ := by
  have hsame : ∀ day, usageFor tables day = usageFor s.tables day := by
    intro day
    unfold usageFor
    rw [husage]
  refine ⟨hunique, howned, ?_, ?_, ?_⟩
  · intro day
    show usageFor tables day = ⟨day, stores .outbound day (d :: s.history),
      stores .inbound day (d :: s.history)⟩
    rw [hsame, h.counted, stores_cons (hd _ _), stores_cons (hd _ _)]
  · intro day
    rw [hsame]
    exact h.sends day
  · intro day
    rw [hsame]
    exact h.receives day

theorem owned_insert (host : EmailHost) {s : EmailTables} {id : Text}
    (h : ∀ attachment ∈ s.attachments.rows, ∃ message ∈ s.messages.rows,
      message.id = attachment.messageId)
    {new : EmailMessage} (hid : new.id = id) {messages : Rows EmailMessage.id}
    (hinsert : s.messages.insert? new = some messages)
    (items : List (EmailAttachmentMeta × Text)) :
    ∀ attachment ∈ (insertAttachments host id items s.attachments).2.rows,
      ∃ message ∈ messages.rows, message.id = attachment.messageId := by
  intro attachment hattachment
  rcases insertAttachments_mem hattachment with hold | hmessage
  · obtain ⟨message, hmem, heq⟩ := h attachment hold
    exact ⟨message, (Rows.mem_insert? hinsert).mpr (.inl hmem), heq⟩
  · exact ⟨new, (Rows.mem_insert? hinsert).mpr (.inr rfl), hid.trans hmessage.symm⟩

/-- The quota that is checked has room for the store. -/
theorem kept_of_assertDayQuota {usage : EmailUsage} {direction : Direction}
    (h : assertDayQuota quotas usage direction = .ok ())
    (hsends : Kept quotas.emailSendsPerDay usage.emailSends)
    (hreceives : Kept quotas.emailReceivesPerDay usage.emailReceives) (day : ℕ) :
    Kept quotas.emailSendsPerDay ((EmailUsage.one day direction).add usage).emailSends ∧
      Kept quotas.emailReceivesPerDay ((EmailUsage.one day direction).add usage).emailReceives := by
  cases direction with
  | inbound => exact ⟨hsends, assertQuota_room h⟩
  | outbound => exact ⟨assertQuota_room h, hreceives⟩

/-- A successful store is counted on its day and in its direction. -/
theorem stores_store (startedAt now : ℕ) (id : Text) (input : StoreInput) (result : EmailResult)
    (history : List EmailDone) (day : ℕ) :
    let stored (direction : Direction) :=
      stores direction day (⟨.store startedAt now id input, .ok result⟩ :: history)
    (⟨day, stored .outbound, stored .inbound⟩ : EmailUsage) =
      if utcDay startedAt = day then
        (EmailUsage.one (utcDay startedAt) input.direction).add
          ⟨day, stores .outbound day history, stores .inbound day history⟩
      else ⟨day, stores .outbound day history, stores .inbound day history⟩ := by
  simp only [stores, List.countP_cons, EmailDone.isStore]
  by_cases hday : utcDay startedAt = day
  · have hdirection : input.direction = .inbound ∨ input.direction = .outbound := by
      cases input.direction with
      | inbound => exact .inl rfl
      | outbound => exact .inr rfl
    rw [if_pos hday]
    rcases hdirection with heq | heq
    · simp [hday, heq, EmailUsage.one, EmailUsage.add]
    · simp [hday, heq, EmailUsage.one, EmailUsage.add]
  · rw [if_neg hday]
    simp [hday]

theorem emailInv_store {s : EmailState} (h : EmailInv quotas s) (startedAt now : ℕ) (id : Text)
    (input : StoreInput) :
    EmailInv quotas (emailStep host quotas s (.store startedAt now id input)) := by
  have hcases := emailMessageStore_cases host quotas startedAt now id input s.tables
  simp only [emailStep, emailCall]
  rcases hcases with ⟨e, heq⟩ | ⟨hcheck, messages, hinsert, hrest⟩
  · rw [heq]
    exact h.uncounted (fun _ _ => rfl) rfl h.unique h.owned
  · obtain ⟨hnew, hquota⟩ := checkStore_ok hcheck
    have hunique : UniqueIdentity messages := by
      apply unique_insert h.unique hinsert
      intro identity hidentity row hrow
      exact not_identity_of_new hnew hidentity hrow
    have howned := owned_insert host h.owned rfl hinsert input.attachments
    rcases hrest with ⟨e, -, heq⟩ | ⟨result, heq⟩
    · -- the message stays without all of its attachments, and is not counted
      rw [heq]
      exact h.uncounted (fun _ _ => rfl) rfl hunique howned
    · rw [heq]
      refine ⟨hunique, howned, ?_, ?_, ?_⟩
      · intro day
        rw [usageFor_upsert, stores_store, h.counted]
      · intro day
        rw [usageFor_upsert]
        split
        · rename_i hday
          subst hday
          exact (kept_of_assertDayQuota hquota (h.sends _) (h.receives _) _).1
        · exact h.sends day
      · intro day
        rw [usageFor_upsert]
        split
        · rename_i hday
          subst hday
          exact (kept_of_assertDayQuota hquota (h.sends _) (h.receives _) _).2
        · exact h.receives day

theorem emailInv_delete {s : EmailState} (h : EmailInv quotas s) (id : Text) :
    EmailInv quotas (emailStep host quotas s (.delete id)) := by
  refine h.uncounted (fun _ _ => rfl) rfl ?_ ?_
  · intro row hrow other hother
    exact h.unique row (Rows.mem_filter.mp hrow).1 other (Rows.mem_filter.mp hother).1
  · -- the attachments of the message go with it
    intro attachment hattachment
    obtain ⟨hold, hkeep⟩ := Rows.mem_filter.mp hattachment
    obtain ⟨message, hmem, heq⟩ := h.owned attachment hold
    refine ⟨message, Rows.mem_filter.mpr ⟨hmem, ?_⟩, heq⟩
    rw [heq]
    exact hkeep

theorem emailInv_release {s : EmailState} (h : EmailInv quotas s) (id : Text) :
    EmailInv quotas (emailStep host quotas s (.release id)) := by
  simp only [emailStep, emailCall, emailMessageRelease]
  split
  · exact h.uncounted (fun _ _ => rfl) rfl h.unique h.owned
  · show EmailInv quotas ⟨updateMessage release id s.tables, _ :: s.history⟩
    refine h.uncounted (fun _ _ => rfl) rfl ?_ (owned_updateMessage h.owned)
    apply unique_updateMessage h.unique
    intro row _ _ identity hidentity
    exact .inl hidentity

/-- The id that a delivery event gives is the one that `CallOk` speaks of. -/
theorem givenId_eq {input : DeliveryInput} {s : EmailTables} {row : EmailMessage} {id : Text}
    (htarget : deliveryTarget input s = some row) (hid : input.providerMessageId = some id)
    (hstatus : host.fits input.status = true) (hfits : host.fits id = true) (hne : id ≠ [])
    (hnone : row.providerMessageId = none) : givenId host input s = some (row, id) := by
  have htruthy : truthy input.providerMessageId = some id := by
    rw [hid]
    cases id with
    | nil => exact absurd rfl hne
    | cons c rest => rfl
  unfold givenId
  rw [htarget, htruthy]
  exact if_pos ⟨hnone, hstatus, hfits⟩

/-- **A delivery event that gives away no known id** keeps identities unique. -/
theorem unique_fill {s : EmailTables} (h : UniqueIdentity s.messages) {now : ℕ} {eventId : Text}
    {input : DeliveryInput} (hok : CallOk host s (.setDelivery now eventId input))
    {row : EmailMessage} {id : Text} (htarget : deliveryTarget input s = some row)
    (hid : input.providerMessageId = some id) (hstatus : host.fits input.status = true)
    (hfits : host.fits id = true) :
    UniqueIdentity (updateMessage (fillProviderMessageId id) row.id
      (updateMessage (setStatus input.status) row.id s)).messages := by
  apply unique_updateMessage (unique_setStatus h _ _)
  intro row' hrow' hid' identity hidentity
  rw [identity_fill] at hidentity
  split at hidentity
  · rename_i hnone
    right
    -- the message that is changed is the target of the event
    obtain ⟨old, hold, rfl⟩ := mem_updateMessage.mp hrow'
    rw [((setStatus input.status).at row.id).id] at hid'
    have hsame : old = row :=
      List.inj_on_of_nodup_map s.messages.nodup hold (deliveryTarget_mem htarget) hid'
    subst hsame
    rw [(setStatus_at _ _ _).2] at hnone
    rw [((setStatus input.status).at old.id).provider,
      ((setStatus input.status).at old.id).direction] at hidentity
    obtain ⟨given, hgiven, rfl⟩ := Option.map_eq_some_iff.mp hidentity
    obtain ⟨heq, hne⟩ := Option.filter_eq_some_iff.mp hgiven
    obtain rfl := Option.some.inj heq
    have hne : id ≠ [] := by
      rintro rfl
      exact absurd hne (by simp)
    intro other' hother' hclash
    obtain ⟨other, hother, rfl⟩ := mem_updateMessage.mp hother'
    rw [(setStatus_at _ _ _).1] at hclash
    exact hok old id (givenId_eq htarget hid hstatus hfits hne hnone) other hother hclash
  · exact .inl hidentity

theorem emailInv_setDelivery {s : EmailState} (h : EmailInv quotas s) {now : ℕ} {eventId : Text}
    {input : DeliveryInput} (hok : CallOk host s.tables (.setDelivery now eventId input)) :
    EmailInv quotas (emailStep host quotas s (.setDelivery now eventId input)) := by
  simp only [emailStep, emailCall]
  rcases setDelivery_cases host now eventId input s.tables with
    ⟨hmessages, hattachments, husage⟩ | ⟨row, htarget, hstatus, written, hwritten, hmessages,
      hattachments, husage⟩
  · refine h.uncounted (fun _ _ => rfl) husage ?_ ?_
    · rw [hmessages]
      exact h.unique
    · rw [hmessages, hattachments]
      exact h.owned
  · have hkept : UniqueIdentity written.messages ∧ written.usage = s.tables.usage ∧
        ∀ attachment ∈ written.attachments.rows, ∃ message ∈ written.messages.rows,
          message.id = attachment.messageId := by
      rcases hwritten with rfl | ⟨id, hid, hfits, rfl⟩
      · exact ⟨unique_setStatus h.unique _ _, rfl, owned_updateMessage h.owned⟩
      · exact ⟨unique_fill h.unique hok htarget hid hstatus hfits, rfl,
          owned_updateMessage (owned_updateMessage h.owned)⟩
    obtain ⟨hunique, hsame, howned⟩ := hkept
    refine h.uncounted (fun _ _ => rfl) (husage.trans hsame) ?_ ?_
    · rw [hmessages]
      exact hunique
    · rw [hmessages, hattachments]
      exact howned

/-- **One call** keeps the invariant where it gives away no known id. -/
theorem emailInv_step {s : EmailState} (h : EmailInv quotas s) {call : EmailCall}
    (hok : CallOk host s.tables call) : EmailInv quotas (emailStep host quotas s call) := by
  cases call with
  | store startedAt now id input => exact emailInv_store h startedAt now id input
  | delete id => exact emailInv_delete h id
  | release id => exact emailInv_release h id
  | setDelivery now eventId input => exact emailInv_setDelivery h hok

theorem emailInv_after (calls : List EmailCall) {s : EmailState} (h : EmailInv quotas s)
    (hcalm : CalmRun host quotas calls s) : EmailInv quotas (emailAfter host quotas calls s) := by
  induction calls generalizing s with
  | nil => exact h
  | cons call rest ih => exact ih (emailInv_step h hcalm.1) hcalm.2

/-- **A delivery event that gives away a known id** leaves two messages with one identity. -/
theorem delivery_clashes {s : EmailTables} {now : ℕ} {eventId : Text} {input : DeliveryInput}
    (h : ¬CallOk host s (.setDelivery now eventId input)) :
    ¬UniqueIdentity (emailMessageSetDelivery host now eventId input s).2.messages := by
  intro hunique
  unfold CallOk at h
  push Not at h
  obtain ⟨row, id, hgiven, other, hother, hidentity⟩ := h
  unfold givenId at hgiven
  split at hgiven
  · rename_i target given htarget htruthy
    split at hgiven
    · rename_i hfits
      obtain ⟨hnone, hstatus, hfits⟩ := hfits
      obtain ⟨rfl, rfl⟩ := Prod.mk.inj (Option.some.inj hgiven)
      obtain ⟨hid, hnonempty⟩ := Option.filter_eq_some_iff.mp htruthy
      have hne : other ≠ target := by
        rintro rfl
        unfold EmailMessage.identity at hidentity
        rw [hnone] at hidentity
        cases hidentity
      have hkept : other ∈
          (emailMessageSetDelivery host now eventId input s).2.messages.rows :=
        setDelivery_other htarget hother hne
      let filled := (fillProviderMessageId given).set ((setStatus input.status).set target)
      have hfilled : filled ∈
          (emailMessageSetDelivery host now eventId input s).2.messages.rows := by
        rw [setDelivery_messages htarget hid hstatus]
        dsimp only
        rw [if_pos hfits]
        refine mem_updateMessage.mpr ⟨(setStatus input.status).set target, ?_, if_pos rfl⟩
        exact mem_updateMessage.mpr ⟨target, deliveryTarget_mem htarget, if_pos rfl⟩
      have hfilledIdentity : filled.identity = some (target.provider, given, target.direction) := by
        apply identity_eq
        · show (target.providerMessageId.orElse fun _ => some given) = some given
          rw [hnone]
          rfl
        · rintro rfl
          exact absurd hnonempty (by simp)
      have hids : other.id = target.id :=
        hunique other hkept filled hfilled _ hidentity hfilledIdentity
      exact hne (List.inj_on_of_nodup_map s.messages.nodup hother (deliveryTarget_mem htarget) hids)
    · cases hgiven
  · cases hgiven

end

/-! ### Every run -/

/-- **Stored email is deduplicated and counted**. -/
structure EmailOk (host : EmailHost) (quotas : EmailQuotas) (s : EmailState) : Prop where
  /-- at most one message per provider, non-empty provider id and direction -/
  unique : UniqueIdentity s.tables.messages
  /-- a delivery event by provider id updates the message with that id, and no other -/
  determined : ∀ now eventId input id row, truthy input.id = none →
    input.providerMessageId = some id → id ≠ [] → row ∈ s.tables.messages.rows →
    row.identity = some (input.provider, id, .outbound) → host.fits input.status = true →
    let after := (emailMessageSetDelivery host now eventId input s.tables).2.messages
    (∃ updated ∈ after.rows, updated.id = row.id ∧ updated.deliveryStatus = some input.status) ∧
      ∀ other ∈ s.tables.messages.rows, other ≠ row → other ∈ after.rows
  /-- a store that is refused, or throws though its attachments can be inserted, changes nothing -/
  refused : ∀ startedAt now id input e,
    (emailMessageStore host quotas startedAt now id input s.tables).1 = .error e →
    (∃ code message status, e = .kody code message status) ∨
      Insertable host id input.attachments s.tables.attachments →
    (emailMessageStore host quotas startedAt now id input s.tables).2 = s.tables
  /-- the counts of a day are the numbers of its successful stores -/
  counted : ∀ day, (usageFor s.tables day).emailSends = stores .outbound day s.history ∧
    (usageFor s.tables day).emailReceives = stores .inbound day s.history
  /-- the counts of a day never exceed quotas that are not zero -/
  withinQuotas : ∀ day, (quotas.emailSendsPerDay ≠ 0 →
      (usageFor s.tables day).emailSends ≤ quotas.emailSendsPerDay) ∧
    (quotas.emailReceivesPerDay ≠ 0 →
      (usageFor s.tables day).emailReceives ≤ quotas.emailReceivesPerDay)
  /-- an attachment belongs to a stored message -/
  owned : ∀ attachment ∈ s.tables.attachments.rows, ∃ message ∈ s.tables.messages.rows,
    message.id = attachment.messageId

theorem emailOk_of_inv {host : EmailHost} {quotas : EmailQuotas} {s : EmailState}
    (h : EmailInv quotas s) : EmailOk host quotas s := by
  refine ⟨h.unique, ?_, ?_, ?_, ?_, h.owned⟩
  · intro now eventId input id row hnone hid hne hrow hidentity hstatus
    have htarget := deliveryTarget_eq h.unique hnone hid hne hrow hidentity
    refine ⟨setDelivery_target htarget hid hstatus, ?_⟩
    intro other hother hdistinct
    exact setDelivery_other htarget hother hdistinct
  · intro startedAt now id input e hthrows hrefused
    exact emailMessageStore_throws hthrows hrefused
  · intro day
    rw [h.counted]
    exact ⟨rfl, rfl⟩
  · intro day
    exact ⟨fun hne => (h.sends day).resolve_left hne, fun hne => (h.receives day).resolve_left hne⟩

instance (host : EmailHost) (s : EmailTables) (call : EmailCall) : Decidable (CallOk host s call) :=
  match call with
  | .setDelivery _ _ input =>
    decidable_of_iff (∀ given ∈ givenId host input s, ∀ other ∈ s.messages.rows,
        other.identity ≠ some (given.1.provider, given.2, given.1.direction))
      ⟨fun h row id hgiven => h (row, id) hgiven, fun h given hgiven => h given.1 given.2 hgiven⟩
  | .store .. => isTrue trivial
  | .delete _ => isTrue trivial
  | .release _ => isTrue trivial

instance decidableCalmRun (host : EmailHost) (quotas : EmailQuotas) :
    (calls : List EmailCall) → (s : EmailState) → Decidable (CalmRun host quotas calls s)
  | [], _ => isTrue trivial
  | call :: rest, s =>
    @instDecidableAnd (CallOk host s.tables call) _ _
      (decidableCalmRun host quotas rest (emailStep host quotas s call))

def sampleHost : EmailHost where
  fits _ := true
  attachmentsJson _ := "[]"

def sampleQuotas : EmailQuotas := ⟨0, 0, 0⟩

def sampleContent : EmailContent :=
  { inboxAddress := none, fromJson := "\x7b\x7d", toJson := "[]", ccJson := "[]"
    replyToJson := "[]", subject := "hi", messageId := none, inReplyTo := none, referencesJson := "[]"
    headersJson := "\x7b\x7d", packageName := none, inReplyToMessageId := none }

def sampleSend : StoreInput :=
  { direction := .outbound, content := sampleContent, text := some "hi", html := none
    attachments := [], classification := none, classificationReason := none, provider := "bridge"
    providerMessageId := none, deliveryStatus := some "sending", receivedAt := none
    maxBytes := 1000 }

/-- The event that follows a send: the bridge accepted it under this id. -/
def accepted (messageId providerMessageId : Text) : DeliveryInput :=
  { id := some messageId, providerMessageId := some providerMessageId, provider := "bridge"
    status := "sent", event := "accepted", detail := none, atTime := none }

/-- Two messages are sent; the provider answers with these ids. -/
def twoSends (first second : Text) : List EmailCall :=
  [.store 0 0 "eml_1" sampleSend, .setDelivery 1 "evt_1" (accepted "eml_1" first),
    .store 2 2 "eml_2" sampleSend, .setDelivery 3 "evt_2" (accepted "eml_2" second)]

instance (messages : Rows EmailMessage.id) : Decidable (UniqueIdentity messages) :=
  decidable_of_iff (∀ row ∈ messages.rows, ∀ other ∈ messages.rows,
    row.identity.isSome = true → other.identity = row.identity → row.id = other.id) <| by
    constructor
    · intro h row hrow other hother identity hidentity hidentity'
      exact h row hrow other hother (by rw [hidentity]; rfl) (hidentity'.trans hidentity.symm)
    · intro h row hrow other hother hsome heq
      obtain ⟨identity, hidentity⟩ := Option.isSome_iff_exists.mp hsome
      exact h row hrow other hother identity hidentity (heq.trans hidentity)

end KodyCelld.Email
