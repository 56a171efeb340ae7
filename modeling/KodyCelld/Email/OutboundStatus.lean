import KodyCelld.Email.MessageRuns
import KodyCelld.Email.Outbound
import KodyCelld.Lib.Machine

namespace KodyCelld.Email

open KodyCelld.Lib
open KodyCelld.MailBridge (bareMessageId)

/-!
# The status of a sent message (`email/service.ts`, `email/events.ts`, `mail-bridge/server.mjs`)

A message is stored as `sending` and posted to the bridge.  The bridge accepts it and reports later how
its delivery went, while Kody still writes the routing index, the status `queued` and an audit row.

* `outboundEmailIndexSet`, `outboundEmailIndexResolve` — the index that routes a report to its message;
* `idFrom`, `eventId`, `statusFor` — what Kody reads in the bridge's answer and in its report;
* `World`, `sendStep` — one send, the delivery of its message, and everything else that goes on;
* `Calm` — the steps that do no harm;
* `truthfulInv_step`, `status_truthful` — runs of such steps leave the status that was reported;
* `status_untruthful` — three runs that do not.
-/

/-! ### The routing index -/

/-- A row of `outbound_email_index`. -/
structure OutboundIndexRow where
  provider : Text
  providerMessageId : Text
  userId : Text
  messageId : Text
  createdAt : ℕ
  deriving DecidableEq, Repr

def OutboundIndexRow.key (row : OutboundIndexRow) : Text × Text := (row.provider, row.providerMessageId)

abbrev OutboundIndex := Rows OutboundIndexRow.key

/-- Delivery events (bounces, complaints) arrive within days; the routing index does not need to
    outlive that. -/
def outboundEmailIndexTtlMs : ℕ := 30 * 24 * 60 * 60 * 1000

/-- `DO UPDATE SET user_id = excluded.user_id, message_id = excluded.message_id` -/
def reroute (userId messageId : Text) (row : OutboundIndexRow) : OutboundIndexRow :=
  { row with userId := userId, messageId := messageId }

/-- Remembers which user's cell owns an outbound message so provider delivery events can find it; the
    clock is read for the row and again for the rows that are pruned. -/
def outboundEmailIndexSet (new : OutboundIndexRow) (now : ℕ) (index : OutboundIndex) : OutboundIndex :=
  (index.upsert new (reroute new.userId new.messageId) fun _ => rfl).filter fun row =>
    !decide (row.createdAt + outboundEmailIndexTtlMs < now)

def outboundEmailIndexResolve (provider providerMessageId : Text) (index : OutboundIndex) :
    Option (Text × Text) :=
  (index.find? (provider, providerMessageId)).map fun row => (row.userId, row.messageId)

/-! ### Answers and reports of the bridge -/

/-- `idFrom(body.messageId)` of `parseSendResponse` -/
def idFrom (messageId : Text) : Option Text := (orNull (some messageId)).map stripAngles

/-- `stripAngle(str(b.messageId))` of a report; `none` where the report is refused. -/
def eventId (messageId : Text) : Option Text :=
  match orNull (some messageId) with
  | none => none
  | some id => if (trim id).isEmpty then none else orNull (some (stripAngles (trim id)))

/-- `statusByEvent` -/
def statusByEvent : List (Text × Text) :=
  [("queued", "queued"), ("accepted", "queued"), ("processed", "queued"), ("sent", "sent"),
    ("delivered", "delivered"), ("delivery", "delivered"), ("delayed", "delayed"),
    ("deferred", "delayed"), ("delivery_delayed", "delayed"), ("bounce", "bounced"),
    ("bounced", "bounced"), ("dropped", "failed"), ("failed", "failed"), ("rejected", "failed"),
    ("complained", "complained"), ("spamcomplaint", "complained"), ("spamreport", "complained"),
    ("complaint", "complained"), ("open", "opened"), ("opened", "opened"), ("click", "clicked"),
    ("clicked", "clicked")]

def statusOf (key : Text) : Option Text := (statusByEvent.find? fun entry => entry.1 = key).map Prod.snd

/-- `event.replace(/^email\./, '')` -/
def dropEmailPrefix (event : Text) : Text :=
  if List.isPrefixOf ("email." : Text) event then event.drop 6 else event

/-- The status of an event, by its name in lower case. -/
def statusFor (event : Text) : Text :=
  let key := (dropEmailPrefix (lower event)).map fun c =>
    if c = '.' ∨ isSpace c = true ∨ c = '-' then '_' else c
  ((statusOf key).orElse fun _ => statusOf (key.filter fun c => decide (c ≠ '_'))).getD "sent"

/-- What the bridge reports of a delivery: `info.rejected` of every recipient, or an error, is a
    failure. -/
inductive BridgeEvent where
  | sent | failed
  deriving DecidableEq, Repr

def BridgeEvent.text : BridgeEvent → Text
  | .sent => "sent"
  | .failed => "failed"

theorem statusFor_text (event : BridgeEvent) : statusFor event.text = event.text := by
  cases event with
  | sent => decide
  | failed => decide

/-! ### One send -/

/-- One send: the platform of the cell, the user, and the message that is stored under a new id. -/
structure Send where
  host : EmailHost
  quotas : EmailQuotas
  userId : Text
  messageId : Text
  messageId_ne : messageId ≠ []
  input : StoreInput
  sending : input.deliveryStatus = some "sending"
  /-- Short texts can be bound. -/
  binds : ∀ status ∈ ([("queued" : Text), "sent", "failed"] : List Text), host.fits status = true

/-- How an awaited call of a cell ends: it returns, or it is lost, before or after it took effect. -/
inductive Rpc where
  | returns
  | lost (applied : Bool) (e : Thrown)
  deriving DecidableEq, Repr

/-- Where a send is: what it awaits, or how it ended. -/
inductive SendPhase where
  | starting
  | posting (stored : Option EmailMessage)
  | indexing (stored : Option EmailMessage) (providerMessageId : Text)
  | marking (stored : Option EmailMessage) (providerMessageId : Option Text)
  | auditing (record : Option EmailMessage)
  | failing (e : Thrown)
  | returned (result : Except Thrown (Option EmailMessage))
  deriving DecidableEq

inductive EventOutcome where
  | matched | unmatched | ignored | threw
  deriving DecidableEq, Repr

/-- Where the delivery of the message is; `messageId` is the bridge's own id of it. -/
inductive BridgePhase where
  | idle
  | delivering (messageId : Text)
  | silent (messageId : Text)
  | resolving (messageId : Text) (event : BridgeEvent)
  | updating (messageId : Text) (event : BridgeEvent) (userId target : Text)
  | reported (messageId : Text) (event : BridgeEvent) (outcome : EventOutcome)
  deriving DecidableEq

/-- The user's stored mail, the routing index, and the two parties. -/
structure World where
  cell : EmailTables
  index : OutboundIndex
  send : SendPhase
  bridge : BridgePhase

/-- What can happen next. -/
inductive SendEvent where
  | refuse (e : Thrown)
  | store (startedAt now : ℕ)
  | accept (uuid host : Text)
  | answer
  | fail (e : Thrown)
  | index (createdAt now : ℕ) (rpc : Rpc)
  | mark (now : ℕ) (rowId : Text) (rpc : Rpc)
  | audit (rpc : Rpc)
  | markFailed (now : ℕ) (rowId : Text) (rpc : Rpc)
  | stayQuiet
  | report (event : BridgeEvent)
  | resolve
  | update (now : ℕ) (rowId : Text) (detail : Option Text) (atTime : Option ℕ) (rpc : Rpc)
  | elsewhere (call : EmailCall)
  | reindex (new : OutboundIndexRow) (now : ℕ)

def bridgeProvider : Text := "bridge"

/-- The `queued` that the bridge's answer leads to. -/
def queuedInput (messageId : Text) (providerMessageId : Option Text) : DeliveryInput where
  id := some messageId
  providerMessageId := providerMessageId
  provider := bridgeProvider
  status := "queued"
  event := "accepted"
  detail := none
  atTime := none

/-- The `failed` that an exception leads to. -/
def failedInput (messageId : Text) (e : Thrown) : DeliveryInput where
  id := some messageId
  providerMessageId := none
  provider := bridgeProvider
  status := "failed"
  event := "send_failed"
  detail := some (KodyCelld.OAuth.cutTo 500 e.message)
  atTime := none

/-- The update that a report leads to. -/
def reportInput (messageId : Text) (event : BridgeEvent) (detail : Option Text) (atTime : Option ℕ) :
    DeliveryInput where
  id := some messageId
  providerMessageId := none
  provider := bridgeProvider
  status := statusFor event.text
  event := event.text
  detail := detail
  atTime := atTime

/-- The effect of an awaited call on the cell, and how it ends for the caller. -/
def awaited (rpc : Rpc) (run : EmailTables → Except Thrown EmailResult × EmailTables)
    (s : EmailTables) : Except Thrown EmailResult × EmailTables :=
  match rpc with
  | .returns => run s
  | .lost applied e => (.error e, if applied then (run s).2 else s)

def recordOf : EmailResult → Option EmailMessage
  | .message record => record
  | .deleted _ => none

variable (x : Send)

/-- One step. -/
def sendStep (w : World) : SendEvent → Option World
  | .refuse e =>
    if w.send = .starting then some { w with send := .returned (.error e) } else none
  | .store startedAt now =>
    if w.send = .starting then
      let outcome := emailMessageStore x.host x.quotas startedAt now x.messageId x.input w.cell
      match outcome.1 with
      | .error e => some { w with cell := outcome.2, send := .returned (.error e) }
      | .ok result => some { w with cell := outcome.2, send := .posting (recordOf result) }
    else none
  | .accept uuid host =>
    match w.send, w.bridge with
    | .posting _, .idle =>
      some { w with bridge := .delivering (bareMessageId ('<' :: uuid ++ '@' :: host ++ ['>'])) }
    | _, _ => none
  | .answer =>
    -- the bridge answers 202 with its id of the message
    match w.send, w.bridge with
    | .posting _, .idle => none
    | .posting stored, .delivering id | .posting stored, .silent id
    | .posting stored, .resolving id _ | .posting stored, .updating id _ _ _
    | .posting stored, .reported id _ _ =>
      match idFrom id with
      | some providerMessageId => some { w with send := .indexing stored providerMessageId }
      | none => some { w with send := .marking stored none }
    | _, _ => none
  | .fail e =>
    -- the request fails, times out, or is answered with an error
    match w.send with
    | .posting _ => some { w with send := .failing e }
    | _ => none
  | .index createdAt now rpc =>
    match w.send with
    | .indexing stored providerMessageId =>
      let index := outboundEmailIndexSet
        ⟨bridgeProvider, providerMessageId, x.userId, x.messageId, createdAt⟩ now w.index
      match rpc with
      | .returns => some { w with index := index, send := .marking stored (some providerMessageId) }
      | .lost applied e =>
        some { w with index := if applied then index else w.index, send := .failing e }
    | _ => none
  | .mark now rowId rpc =>
    match w.send with
    | .marking stored providerMessageId =>
      let outcome := awaited rpc (emailMessageSetDelivery x.host now rowId
        (queuedInput x.messageId providerMessageId)) w.cell
      match outcome.1 with
      | .error e => some { w with cell := outcome.2, send := .failing e }
      | .ok result =>
        some { w with cell := outcome.2, send := .auditing ((recordOf result).orElse fun _ => stored) }
    | _ => none
  | .audit rpc =>
    match w.send with
    | .auditing record =>
      match rpc with
      | .returns => some { w with send := .returned (.ok record) }
      | .lost _ e => some { w with send := .failing e }
    | _ => none
  | .markFailed now rowId rpc =>
    match w.send with
    | .failing e =>
      let outcome := awaited rpc (emailMessageSetDelivery x.host now rowId
        (failedInput x.messageId e)) w.cell
      match outcome.1 with
      | .error e' => some { w with cell := outcome.2, send := .returned (.error e') }
      | .ok _ => some { w with cell := outcome.2, send := .returned (.error e) }
    | _ => none
  | .stayQuiet =>
    match w.bridge with
    | .delivering id => some { w with bridge := .silent id }
    | _ => none
  | .report event =>
    match w.bridge with
    | .delivering id => some { w with bridge := .resolving id event }
    | _ => none
  | .resolve =>
    match w.bridge with
    | .resolving id event =>
      match eventId id with
      | none => some { w with bridge := .reported id event .threw }
      | some providerMessageId =>
        match outboundEmailIndexResolve bridgeProvider providerMessageId w.index with
        | none => some { w with bridge := .reported id event .unmatched }
        | some (userId, target) => some { w with bridge := .updating id event userId target }
    | _ => none
  | .update now rowId detail atTime rpc =>
    match w.bridge with
    | .updating id event userId target =>
      -- another user's message is in another cell
      if userId = x.userId then
        let outcome := awaited rpc (emailMessageSetDelivery x.host now rowId
          (reportInput target event detail atTime)) w.cell
        let ended : EventOutcome := match outcome.1 with
          | .error _ => .threw
          | .ok result => if (recordOf result).isSome then .matched else .ignored
        some { w with cell := outcome.2, bridge := .reported id event ended }
      else some { w with bridge := .reported id event .matched }
    | _ => none
  | .elsewhere call => some { w with cell := (emailCall x.host x.quotas call w.cell).2 }
  | .reindex new now => some { w with index := outboundEmailIndexSet new now w.index }

/-! ### Steps that do no harm -/

/-- A delivery event that can be recorded. -/
def Recordable (row : EmailDeliveryEvent) (s : EmailTables) : Prop :=
  row.texts.all x.host.fits = true ∧ s.events.find? row.id = none

/-- A call for this message: its deletion, or a delivery event for it. -/
def Touches (s : EmailTables) : EmailCall → Prop
  | .delete id => id = x.messageId
  | .setDelivery _ _ input => ∃ row, deliveryTarget input s = some row ∧ row.id = x.messageId
  | _ => False

/-- The status `queued` has been written. -/
def SendPhase.Marked : SendPhase → Prop
  | .auditing _ => True
  | .returned (.ok _) => True
  | _ => False

/-- The index names this message for the id of a report. -/
def Routed (w : World) : Prop :=
  ∀ id event, w.bridge = .resolving id event → ∃ providerMessageId,
    eventId id = some providerMessageId ∧
      outboundEmailIndexResolve bridgeProvider providerMessageId w.index =
        some (x.userId, x.messageId)

/-- **A calm step**: the answer to an accepted message arrives, no later call of the send fails, a
    report is looked up after the index and the status `queued` were written, its update gets through,
    and nothing else deletes the message or reports on it. -/
def Calm (w : World) : SendEvent → Prop
  | .fail _ => w.bridge = .idle
  | .index _ _ rpc => rpc = .returns
  | .mark now rowId rpc => rpc = .returns ∧
      ∀ stored providerMessageId, w.send = .marking stored providerMessageId →
        (∀ id, providerMessageId = some id → x.host.fits id = true) ∧
        Recordable x ((queuedInput x.messageId providerMessageId).row rowId x.messageId now) w.cell
  | .audit rpc => rpc = .returns
  | .resolve => w.send.Marked ∧ Routed x w
  | .update _ _ _ _ rpc => rpc = .returns
  | .elsewhere call => ¬Touches x w.cell call
  | _ => True

/-- The message is stored with a status. -/
def HasStatus (s : EmailTables) (status : Text) : Prop :=
  ∃ row, s.messages.find? x.messageId = some row ∧ row.deliveryStatus = some status

/-- The bridge has accepted the message. -/
def Accepted (w : World) : Prop := w.bridge ≠ .idle

/-- **A truthful status**: once the send has returned and the bridge's report has been handled, the
    report was not dropped as unmatched and the status is the one reported; and a message that the
    bridge accepted is not reported to the caller as failed, nor marked failed unless the bridge
    reported so. -/
structure Truthful (w : World) : Prop where
  status : ∀ id event outcome result, w.bridge = .reported id event outcome →
    w.send = .returned result → outcome ≠ .unmatched ∧ HasStatus x w.cell (statusFor event.text)
  caller : Accepted w → ∀ e, w.send ≠ .failing e ∧ w.send ≠ .returned (.error e)
  marked : Accepted w → (∀ id outcome, w.bridge ≠ .reported id .failed outcome) →
    ¬HasStatus x w.cell "failed"

/-! ### The message's row -/

variable {x}

theorem hasStatus_store {startedAt now : ℕ} {s : EmailTables} {result : EmailResult}
    (h : (emailMessageStore x.host x.quotas startedAt now x.messageId x.input s).1 = .ok result) :
    HasStatus x (emailMessageStore x.host x.quotas startedAt now x.messageId x.input s).2
      "sending" := by
  rcases emailMessageStore_cases x.host x.quotas startedAt now x.messageId x.input s with
    ⟨e, heq⟩ | ⟨-, messages, hinsert, ⟨e, -, heq⟩ | ⟨result', heq⟩⟩
  · rw [heq] at h
    cases h
  · rw [heq] at h
    cases h
  · rw [heq]
    refine ⟨x.input.row x.host x.messageId now, ?_, x.sending⟩
    show messages.find? x.messageId = _
    rw [Rows.find?_insert? hinsert]
    exact if_pos rfl

/-- The message of a send, found by its id. -/
theorem target_own {s : EmailTables} {input : DeliveryInput} (hid : input.id = some x.messageId)
    {row : EmailMessage} (hrow : s.messages.find? x.messageId = some row) :
    deliveryTarget input s = some row := by
  have htruthy : truthy input.id = some x.messageId := by
    rw [hid]
    unfold truthy
    rw [Option.filter_some, if_pos]
    simpa using x.messageId_ne
  unfold deliveryTarget
  rw [htruthy]
  exact hrow

theorem find?_updateMessage (change : MessageChange) (target id : Text) (s : EmailTables) :
    (updateMessage change target s).messages.find? id =
      (s.messages.find? id).map (change.at target).set :=
  Rows.find?_map _ _ (change.at target).id _

/-- An update that keeps the status keeps it in the message's row. -/
theorem hasStatus_update {change : MessageChange} {target : Text} {s : EmailTables} {status : Text}
    (hchange : ∀ row, (change.set row).deliveryStatus = row.deliveryStatus)
    (h : HasStatus x s status) : HasStatus x (updateMessage change target s) status := by
  obtain ⟨row, hrow, hstatus⟩ := h
  refine ⟨(change.at target).set row, ?_, ?_⟩
  · rw [find?_updateMessage, hrow]
    rfl
  · show (if row.id = target then change.set row else row).deliveryStatus = _
    split
    · rw [hchange, hstatus]
    · exact hstatus

theorem hasStatus_setStatus (status : Text) {s : EmailTables} {row : EmailMessage}
    (hrow : s.messages.find? x.messageId = some row) :
    HasStatus x (updateMessage (setStatus status) row.id s) status := by
  refine ⟨(setStatus status).set row, ?_, rfl⟩
  rw [find?_updateMessage, hrow]
  show some (if row.id = row.id then (setStatus status).set row else row) = _
  rw [if_pos rfl]

/-- Only the messages decide about the status. -/
theorem HasStatus.of_messages {s s' : EmailTables} {status : Text} (h : HasStatus x s status)
    (hmessages : s'.messages = s.messages) : HasStatus x s' status := by
  obtain ⟨row, hrow, hstatus⟩ := h
  exact ⟨row, hmessages ▸ hrow, hstatus⟩

/-- **A delivery event for the message** leaves its status, whether it can be recorded or not. -/
theorem hasStatus_setDelivery (now : ℕ) (rowId : Text) (input : DeliveryInput) {s : EmailTables}
    {status : Text} (h : HasStatus x s status) (hid : input.id = some x.messageId)
    (hfits : x.host.fits input.status = true) :
    HasStatus x (emailMessageSetDelivery x.host now rowId input s).2 input.status := by
  obtain ⟨row, hrow, -⟩ := h
  have hgoes : ¬(input.id = none ∧ input.providerMessageId = none) := by
    rintro ⟨hnone, -⟩
    rw [hid] at hnone
    cases hnone
  have hset := hasStatus_setStatus input.status hrow
  unfold emailMessageSetDelivery
  rw [target_own hid hrow]
  dsimp only
  rw [if_neg hgoes, if_pos hfits]
  split
  · exact hset.of_messages (insertEvent_tables _ _).1
  · split
    · refine HasStatus.of_messages ?_ (insertEvent_tables _ _).1
      exact hasStatus_update (fun _ => rfl) hset
    · exact hset

/-- A delivery event for the message that can be recorded returns. -/
theorem setDelivery_ok {now : ℕ} {rowId : Text} (input : DeliveryInput) {s : EmailTables}
    {status : Text} (h : HasStatus x s status) (hid : input.id = some x.messageId)
    (hfits : x.host.fits input.status = true)
    (hprovider : ∀ id, input.providerMessageId = some id → x.host.fits id = true)
    (hrecordable : Recordable x (input.row rowId x.messageId now) s) :
    ∃ result, (emailMessageSetDelivery x.host now rowId input s).1 = .ok result := by
  obtain ⟨row, hrow, -⟩ := h
  have hgoes : ¬(input.id = none ∧ input.providerMessageId = none) := by
    rintro ⟨hnone, -⟩
    rw [hid] at hnone
    cases hnone
  have hrowId : row.id = x.messageId := (Rows.find?_eq_some.mp hrow).2
  have hinsert : ∀ s' : EmailTables, s'.events = s.events →
      ∃ result, (insertEvent x.host (input.row rowId row.id now) s').1 = .ok result := by
    intro s' hevents
    obtain ⟨events, hevent⟩ := Rows.exists_insert? (hevents ▸ hrecordable.2)
    rw [hrowId]
    unfold insertEvent insertRow
    rw [if_pos hrecordable.1, hevent]
    exact ⟨_, rfl⟩
  unfold emailMessageSetDelivery
  rw [target_own hid hrow]
  dsimp only
  rw [if_neg hgoes, if_pos hfits]
  split
  · exact hinsert _ rfl
  · rename_i id hsome
    rw [if_pos (hprovider id hsome)]
    exact hinsert _ rfl

/-- **Another call** leaves the status of the message alone. -/
theorem hasStatus_call {call : EmailCall} {s : EmailTables} {status : Text}
    (h : HasStatus x s status) (hother : ¬Touches x s call) :
    HasStatus x (emailCall x.host x.quotas call s).2 status := by
  cases call with
  | store startedAt now id input =>
    have hkept : ∀ {messages : Rows EmailMessage.id},
        s.messages.insert? (input.row x.host id now) = some messages →
        ∃ row, messages.find? x.messageId = some row ∧ row.deliveryStatus = some status := by
      intro messages hinsert
      obtain ⟨row, hrow, hstatus⟩ := h
      refine ⟨row, ?_, hstatus⟩
      obtain ⟨hmem, hrowId⟩ := Rows.find?_eq_some.mp hrow
      exact Rows.find?_eq_some.mpr ⟨(Rows.mem_insert? hinsert).mpr (.inl hmem), hrowId⟩
    rcases emailMessageStore_cases x.host x.quotas startedAt now id input s with
      ⟨e, heq⟩ | ⟨-, messages, hinsert, ⟨e, -, heq⟩ | ⟨result, heq⟩⟩
    · show HasStatus x (emailMessageStore x.host x.quotas startedAt now id input s).2 status
      rw [heq]
      exact h
    · show HasStatus x (emailMessageStore x.host x.quotas startedAt now id input s).2 status
      rw [heq]
      exact hkept hinsert
    · show HasStatus x (emailMessageStore x.host x.quotas startedAt now id input s).2 status
      rw [heq]
      exact hkept hinsert
  | delete id =>
    obtain ⟨row, hrow, hstatus⟩ := h
    obtain ⟨hmem, hrowId⟩ := Rows.find?_eq_some.mp hrow
    refine ⟨row, Rows.find?_eq_some.mpr ⟨Rows.mem_filter.mpr ⟨hmem, ?_⟩, hrowId⟩, hstatus⟩
    rw [decide_eq_true_eq, hrowId]
    exact fun heq => hother heq.symm
  | release id =>
    show HasStatus x (emailMessageRelease id s).2 status
    unfold emailMessageRelease
    split
    · exact h
    · exact hasStatus_update (fun _ => rfl) h
  | setDelivery now rowId input =>
    show HasStatus x (emailMessageSetDelivery x.host now rowId input s).2 status
    obtain ⟨row, hrow, hstatus⟩ := h
    obtain ⟨hmem, hrowId⟩ := Rows.find?_eq_some.mp hrow
    cases htarget : deliveryTarget input s with
    | none =>
      rcases setDelivery_cases x.host now rowId input s with ⟨hmessages, -⟩ | ⟨row', htarget', -⟩
      · exact ⟨row, hmessages ▸ hrow, hstatus⟩
      · rw [htarget] at htarget'
        cases htarget'
    | some target =>
      have hne : row ≠ target := by
        rintro rfl
        exact hother ⟨row, htarget, hrowId⟩
      exact ⟨row, Rows.find?_eq_some.mpr ⟨setDelivery_other htarget hmem hne, hrowId⟩, hstatus⟩

/-! ### Runs -/

/-- The report has not been looked up. -/
def BridgePhase.Unresolved : BridgePhase → Prop
  | .updating _ _ _ _ => False
  | .reported _ _ _ => False
  | _ => True

/-- The status after `queued` was written: it stays until the update of the report. -/
def Settled (x : Send) (w : World) : Prop :=
  match w.bridge with
  | .idle => False
  | .updating _ _ userId target =>
    userId = x.userId ∧ target = x.messageId ∧ HasStatus x w.cell "queued"
  | .reported _ event outcome => outcome ≠ .unmatched ∧ HasStatus x w.cell (statusFor event.text)
  | _ => HasStatus x w.cell "queued"

/-- The invariant of calm runs. -/
def TruthfulInv (x : Send) (w : World) : Prop :=
  match w.send with
  | .starting => w.bridge = .idle
  | .posting _ => HasStatus x w.cell "sending" ∧ w.bridge.Unresolved
  | .indexing _ _ => HasStatus x w.cell "sending" ∧ Accepted w ∧ w.bridge.Unresolved
  | .marking _ _ => HasStatus x w.cell "sending" ∧ Accepted w ∧ w.bridge.Unresolved
  | .auditing _ => Settled x w
  | .returned (.ok _) => Settled x w
  | .failing _ => w.bridge = .idle
  | .returned (.error _) => w.bridge = .idle

/-- Where the report has not been looked up, `queued` settles the status. -/
theorem settled_queued {w : World} (haccepted : Accepted w) (hunresolved : w.bridge.Unresolved)
    (h : HasStatus x w.cell "queued") : Settled x w := by
  unfold Settled
  cases hbridge : w.bridge with
  | idle => exact haccepted hbridge
  | delivering id => exact h
  | silent id => exact h
  | resolving id event => exact h
  | updating id event userId target =>
    rw [hbridge] at hunresolved
    exact hunresolved.elim
  | reported id event outcome =>
    rw [hbridge] at hunresolved
    exact hunresolved.elim

/-- A change of the cell that keeps every status of the message. -/
theorem TruthfulInv.setCell {w : World} (h : TruthfulInv x w) {cell : EmailTables}
    (hcell : ∀ status, HasStatus x w.cell status → HasStatus x cell status) :
    TruthfulInv x { w with cell := cell } := by
  have hsettled : Settled x w → Settled x { w with cell := cell } := by
    unfold Settled
    dsimp only
    cases w.bridge with
    | idle => exact id
    | updating id event userId target => exact fun hw => ⟨hw.1, hw.2.1, hcell _ hw.2.2⟩
    | reported id event outcome => exact fun hw => ⟨hw.1, hcell _ hw.2⟩
    | _ => exact hcell _
  unfold TruthfulInv at h ⊢
  dsimp only
  cases hsend : w.send with
  | starting => simpa only [hsend] using h
  | posting stored =>
    simp only [hsend] at h
    exact ⟨hcell _ h.1, h.2⟩
  | indexing stored id =>
    simp only [hsend] at h
    exact ⟨hcell _ h.1, h.2⟩
  | marking stored id =>
    simp only [hsend] at h
    exact ⟨hcell _ h.1, h.2⟩
  | auditing record =>
    simp only [hsend] at h
    exact hsettled h
  | failing e => simpa only [hsend] using h
  | returned result =>
    cases result with
    | ok record =>
      simp only [hsend] at h
      exact hsettled h
    | error e => simpa only [hsend] using h

/-- A delivery that goes on, without a report that is looked up. -/
theorem TruthfulInv.setBridge {w : World} (h : TruthfulInv x w) {bridge : BridgePhase}
    (hfrom : Accepted w) (hunresolved : w.bridge.Unresolved) (hto : bridge ≠ .idle)
    (hunresolved' : bridge.Unresolved) : TruthfulInv x { w with bridge := bridge } := by
  have hsettled : Settled x w → Settled x { w with bridge := bridge } := by
    intro hw
    have haccepted : Accepted { w with bridge := bridge } := hto
    apply settled_queued haccepted hunresolved'
    unfold Settled at hw
    cases hbridge : w.bridge with
    | idle => exact absurd hbridge hfrom
    | updating id event userId target =>
      rw [hbridge] at hunresolved
      exact hunresolved.elim
    | reported id event outcome =>
      rw [hbridge] at hunresolved
      exact hunresolved.elim
    | delivering id => simpa only [hbridge] using hw
    | silent id => simpa only [hbridge] using hw
    | resolving id event => simpa only [hbridge] using hw
  unfold TruthfulInv at h ⊢
  dsimp only
  cases hsend : w.send with
  | starting =>
    simp only [hsend] at h
    exact absurd h hfrom
  | posting stored =>
    simp only [hsend] at h
    exact ⟨h.1, hunresolved'⟩
  | indexing stored id =>
    simp only [hsend] at h
    exact ⟨h.1, hto, hunresolved'⟩
  | marking stored id =>
    simp only [hsend] at h
    exact ⟨h.1, hto, hunresolved'⟩
  | auditing record =>
    simp only [hsend] at h
    exact hsettled h
  | failing e =>
    simp only [hsend] at h
    exact absurd h hfrom
  | returned result =>
    cases result with
    | ok record =>
      simp only [hsend] at h
      exact hsettled h
    | error e =>
      simp only [hsend] at h
      exact absurd h hfrom

/-- A report that was looked up or handled: `queued` had been written. -/
theorem TruthfulInv.settled {w : World} (h : TruthfulInv x w) (hmarked : w.send.Marked) :
    Settled x w := by
  unfold TruthfulInv at h
  cases hsend : w.send with
  | auditing record => simpa only [hsend] using h
  | returned result =>
    cases result with
    | ok record => simpa only [hsend] using h
    | error e =>
      rw [hsend] at hmarked
      exact hmarked.elim
  | _ =>
    rw [hsend] at hmarked
    exact hmarked.elim

/-- Conversely, a settled status is all that the invariant asks for. -/
theorem truthfulInv_of_settled {w : World} (hmarked : w.send.Marked) (h : Settled x w) :
    TruthfulInv x w := by
  unfold TruthfulInv
  cases hsend : w.send with
  | auditing record => exact h
  | returned result =>
    cases result with
    | ok record => exact h
    | error e =>
      rw [hsend] at hmarked
      exact hmarked.elim
  | _ =>
    rw [hsend] at hmarked
    exact hmarked.elim

/-- A report is being updated or was handled only after `queued` was written. -/
theorem TruthfulInv.marked {w : World} (h : TruthfulInv x w) (hresolved : ¬w.bridge.Unresolved) :
    w.send.Marked := by
  unfold TruthfulInv at h
  cases hsend : w.send with
  | starting =>
    simp only [hsend] at h
    exact (hresolved (h ▸ trivial)).elim
  | posting stored =>
    simp only [hsend] at h
    exact (hresolved h.2).elim
  | indexing stored id =>
    simp only [hsend] at h
    exact (hresolved h.2.2).elim
  | marking stored id =>
    simp only [hsend] at h
    exact (hresolved h.2.2).elim
  | auditing record => trivial
  | failing e =>
    simp only [hsend] at h
    exact (hresolved (h ▸ trivial)).elim
  | returned result =>
    cases result with
    | ok record => trivial
    | error e =>
      simp only [hsend] at h
      exact (hresolved (h ▸ trivial)).elim

/-- **The step lemma**: a calm step keeps the invariant. -/
theorem truthfulInv_step {w w' : World} {event : SendEvent} (h : TruthfulInv x w)
    (hcalm : Calm x w event) (hstep : sendStep x w event = some w') : TruthfulInv x w' := by
  cases event with
  | refuse e =>
    simp only [sendStep] at hstep
    split at hstep
    · rename_i hsend
      rw [← Option.some.inj hstep]
      simp only [TruthfulInv, hsend] at h ⊢
      exact h
    · cases hstep
  | store startedAt now =>
    simp only [sendStep] at hstep
    split at hstep
    · rename_i hsend
      simp only [TruthfulInv, hsend] at h
      split at hstep
      · rw [← Option.some.inj hstep]
        exact h
      · rename_i result hresult
        rw [← Option.some.inj hstep]
        refine ⟨hasStatus_store hresult, ?_⟩
        show w.bridge.Unresolved
        rw [h]
        trivial
    · cases hstep
  | accept uuid host =>
    simp only [sendStep] at hstep
    split at hstep
    · rename_i stored hsend hbridge
      rw [← Option.some.inj hstep]
      simp only [TruthfulInv, hsend] at h ⊢
      exact ⟨h.1, trivial⟩
    · cases hstep
  | answer =>
    -- whatever id is read in the answer, the bridge has accepted the message
    have hnext : ∀ stored id, w.send = .posting stored → w.bridge ≠ .idle →
        (match idFrom id with
          | some providerMessageId => some { w with send := .indexing stored providerMessageId }
          | none => some { w with send := .marking stored none }) = some w' → TruthfulInv x w' := by
      intro stored id hsend haccepted hw'
      simp only [TruthfulInv, hsend] at h
      split at hw'
      · rw [← Option.some.inj hw']
        exact ⟨h.1, haccepted, h.2⟩
      · rw [← Option.some.inj hw']
        exact ⟨h.1, haccepted, h.2⟩
    have hbridge : ∀ {phase}, w.bridge = phase → phase ≠ .idle → w.bridge ≠ .idle := by
      rintro phase rfl hne
      exact hne
    simp only [sendStep] at hstep
    split at hstep
    · cases hstep
    · rename_i hsend hid
      exact hnext _ _ hsend (hbridge hid (by simp)) hstep
    · rename_i hsend hid
      exact hnext _ _ hsend (hbridge hid (by simp)) hstep
    · rename_i hsend hid
      exact hnext _ _ hsend (hbridge hid (by simp)) hstep
    · rename_i hsend hid
      exact hnext _ _ hsend (hbridge hid (by simp)) hstep
    · rename_i hsend hid
      exact hnext _ _ hsend (hbridge hid (by simp)) hstep
    · cases hstep
  | fail e =>
    simp only [sendStep] at hstep
    split at hstep
    · rw [← Option.some.inj hstep]
      exact hcalm
    · cases hstep
  | index createdAt now rpc =>
    obtain rfl : rpc = .returns := hcalm
    simp only [sendStep] at hstep
    split at hstep
    · rename_i stored id hsend
      rw [← Option.some.inj hstep]
      simp only [TruthfulInv, hsend] at h ⊢
      exact h
    · cases hstep
  | mark now rowId rpc =>
    obtain ⟨rfl, hrecordable⟩ := hcalm
    simp only [sendStep] at hstep
    split at hstep
    · rename_i stored id hsend
      obtain ⟨hprovider, hrow⟩ := hrecordable stored id hsend
      simp only [TruthfulInv, hsend] at h
      obtain ⟨hstatus, haccepted, hunresolved⟩ := h
      have hfits : x.host.fits "queued" = true := x.binds _ List.mem_cons_self
      obtain ⟨result, hresult⟩ := setDelivery_ok (queuedInput x.messageId id) hstatus rfl hfits
        hprovider hrow
      have hqueued := hasStatus_setDelivery now rowId (queuedInput x.messageId id) hstatus rfl hfits
      simp only [awaited] at hstep
      rw [hresult] at hstep
      rw [← Option.some.inj hstep]
      exact settled_queued haccepted hunresolved hqueued
    · cases hstep
  | audit rpc =>
    obtain rfl : rpc = .returns := hcalm
    simp only [sendStep] at hstep
    split at hstep
    · rename_i record hsend
      rw [← Option.some.inj hstep]
      simp only [TruthfulInv, hsend] at h
      exact h
    · cases hstep
  | markFailed now rowId rpc =>
    simp only [sendStep] at hstep
    split at hstep
    · rename_i e hsend
      simp only [TruthfulInv, hsend] at h
      split at hstep
      · rw [← Option.some.inj hstep]
        exact h
      · rw [← Option.some.inj hstep]
        exact h
    · cases hstep
  | stayQuiet =>
    simp only [sendStep] at hstep
    split at hstep
    · rename_i id hbridge
      rw [← Option.some.inj hstep]
      refine h.setBridge ?_ ?_ (by simp) trivial
      · exact fun hidle => absurd (hbridge.symm.trans hidle) (by simp)
      · rw [hbridge]
        trivial
    · cases hstep
  | report event =>
    simp only [sendStep] at hstep
    split at hstep
    · rename_i id hbridge
      rw [← Option.some.inj hstep]
      refine h.setBridge ?_ ?_ (by simp) trivial
      · exact fun hidle => absurd (hbridge.symm.trans hidle) (by simp)
      · rw [hbridge]
        trivial
    · cases hstep
  | resolve =>
    obtain ⟨hmarked, hrouted⟩ := hcalm
    simp only [sendStep] at hstep
    split at hstep
    · rename_i id event hbridge
      obtain ⟨providerMessageId, hid, howner⟩ := hrouted id event hbridge
      have hsettled := h.settled hmarked
      unfold Settled at hsettled
      rw [hbridge] at hsettled
      rw [hid] at hstep
      dsimp only at hstep
      rw [howner] at hstep
      rw [← Option.some.inj hstep]
      exact truthfulInv_of_settled hmarked ⟨rfl, rfl, hsettled⟩
    · cases hstep
  | update now rowId detail atTime rpc =>
    obtain rfl : rpc = .returns := hcalm
    simp only [sendStep] at hstep
    split at hstep
    · rename_i id event userId target hbridge
      have hmarked := h.marked (by rw [hbridge]; exact not_false)
      have hsettled := h.settled hmarked
      unfold Settled at hsettled
      rw [hbridge] at hsettled
      obtain ⟨rfl, rfl, hqueued⟩ := hsettled
      have hfits : x.host.fits (statusFor event.text) = true := by
        rw [statusFor_text]
        cases event with
        | sent => exact x.binds _ (by decide)
        | failed => exact x.binds _ (by decide)
      have hstatus := hasStatus_setDelivery now rowId
        (reportInput x.messageId event detail atTime) hqueued rfl hfits
      rw [if_pos rfl] at hstep
      simp only [awaited] at hstep
      rw [← Option.some.inj hstep]
      refine truthfulInv_of_settled hmarked ⟨?_, hstatus⟩
      split
      · simp
      · split
        · simp
        · simp
    · cases hstep
  | elsewhere call =>
    rw [← Option.some.inj hstep]
    exact h.setCell fun status hstatus => hasStatus_call hstatus hcalm
  | reindex new now =>
    rw [← Option.some.inj hstep]
    exact h

/-- The invariant says that the status is truthful. -/
theorem TruthfulInv.truthful {w : World} (h : TruthfulInv x w) : Truthful x w := by
  have hother : ∀ {status status' : Text}, HasStatus x w.cell status → status ≠ status' →
      ¬HasStatus x w.cell status' := by
    rintro status status' ⟨row, hrow, hstatus⟩ hne ⟨row', hrow', hstatus'⟩
    obtain rfl : row = row' := Option.some.inj (hrow.symm.trans hrow')
    exact hne (Option.some.inj (hstatus.symm.trans hstatus'))
  refine ⟨?_, ?_, ?_⟩
  · intro id event outcome result hbridge hsend
    have hmarked := h.marked (by rw [hbridge]; exact not_false)
    have hsettled := h.settled hmarked
    unfold Settled at hsettled
    rw [hbridge] at hsettled
    exact hsettled
  · intro haccepted e
    constructor
    · intro hsend
      simp only [TruthfulInv, hsend] at h
      exact haccepted h
    · intro hsend
      simp only [TruthfulInv, hsend] at h
      exact haccepted h
  · intro haccepted hreport
    have hsettled : Settled x w → ¬HasStatus x w.cell "failed" := by
      intro hw
      unfold Settled at hw
      cases hbridge : w.bridge with
      | idle => exact absurd hbridge haccepted
      | updating id event userId target =>
        rw [hbridge] at hw
        exact hother hw.2.2 (by decide)
      | reported id event outcome =>
        rw [hbridge] at hw
        cases event with
        | sent => exact hother hw.2 (by decide)
        | failed => exact absurd hbridge (hreport id outcome)
      | delivering id =>
        rw [hbridge] at hw
        exact hother hw (by decide)
      | silent id =>
        rw [hbridge] at hw
        exact hother hw (by decide)
      | resolving id event =>
        rw [hbridge] at hw
        exact hother hw (by decide)
    cases hsend : w.send with
    | starting =>
      simp only [TruthfulInv, hsend] at h
      exact absurd h haccepted
    | posting stored =>
      simp only [TruthfulInv, hsend] at h
      exact hother h.1 (by decide)
    | indexing stored id =>
      simp only [TruthfulInv, hsend] at h
      exact hother h.1 (by decide)
    | marking stored id =>
      simp only [TruthfulInv, hsend] at h
      exact hother h.1 (by decide)
    | auditing record =>
      simp only [TruthfulInv, hsend] at h
      exact hsettled h
    | failing e =>
      simp only [TruthfulInv, hsend] at h
      exact absurd h haccepted
    | returned result =>
      cases result with
      | ok record =>
        simp only [TruthfulInv, hsend] at h
        exact hsettled h
      | error e =>
        simp only [TruthfulInv, hsend] at h
        exact absurd h haccepted

/-- A send that has not begun, over any stored mail and any index. -/
def World.fresh (cell : EmailTables) (index : OutboundIndex) : World := ⟨cell, index, .starting, .idle⟩

/-- A send from an empty cell on a platform that binds every text. -/
def noteSend : Send where
  host := ⟨fun _ => true, fun _ => "[]"⟩
  quotas := ⟨0, 0, 0⟩
  userId := "u1"
  messageId := "m1"
  messageId_ne := by decide
  input :=
    { direction := .outbound
      content := ⟨some "bob@kody.test", "bob@kody.test", "[]", "[]", "[]", "Hi", none, none, "[]",
        "\x7b\x7d", none, none⟩
      text := some "Hi", html := none, attachments := [], classification := none
      classificationReason := none, provider := "bridge", providerMessageId := none
      deliveryStatus := some "sending", receivedAt := none, maxBytes := 1000 }
  sending := rfl
  binds _ _ := rfl

def noteWorld : World := .fresh EmailState.empty.tables .empty

/-- What a calm step asks of this send, as a test. -/
def calmCheck (w : World) : SendEvent → Bool
  | .fail _ => decide (w.bridge = .idle)
  | .index _ _ rpc => decide (rpc = .returns)
  | .mark _ rowId rpc => decide (rpc = .returns) && decide (w.cell.events.find? rowId = none)
  | .audit rpc => decide (rpc = .returns)
  | .resolve =>
    (match w.send with | .auditing _ => true | _ => false) &&
      match w.bridge with
      | .resolving id _ => (eventId id).any fun providerMessageId =>
          decide (outboundEmailIndexResolve bridgeProvider providerMessageId w.index =
            some (("u1" : Text), ("m1" : Text)))
      | _ => false
  | .update _ _ _ _ rpc => decide (rpc = .returns)
  | .elsewhere _ => false
  | _ => true

theorem calm_of_check (w : World) (event : SendEvent) (h : calmCheck w event = true) :
    Calm noteSend w event := by
  cases event with
  | fail e =>
    have hidle : w.bridge = .idle := of_decide_eq_true h
    exact hidle
  | index createdAt now rpc =>
    have hreturns : rpc = .returns := of_decide_eq_true h
    exact hreturns
  | mark now rowId rpc =>
    obtain ⟨hrpc, hfresh⟩ := Bool.and_eq_true_iff.mp h
    refine ⟨of_decide_eq_true hrpc, ?_⟩
    intro stored providerMessageId _
    exact ⟨fun _ _ => rfl, List.all_eq_true.mpr fun _ _ => rfl, of_decide_eq_true hfresh⟩
  | audit rpc =>
    have hreturns : rpc = .returns := of_decide_eq_true h
    exact hreturns
  | resolve =>
    obtain ⟨hmarked, hrouted⟩ := Bool.and_eq_true_iff.mp h
    constructor
    · cases hsend : w.send with
      | auditing record => trivial
      | _ =>
        rw [hsend] at hmarked
        cases hmarked
    · intro id event hbridge
      rw [hbridge] at hrouted
      cases hid : eventId id with
      | none =>
        simp only [hid] at hrouted
        cases hrouted
      | some providerMessageId =>
        simp only [hid] at hrouted
        exact ⟨providerMessageId, rfl, of_decide_eq_true hrouted⟩
  | update now rowId detail atTime rpc =>
    have hreturns : rpc = .returns := of_decide_eq_true h
    exact hreturns
  | elsewhere call => cases h
  | _ => trivial

/-- The message is accepted, marked, and then reported as failed. -/
def lateReport : List SendEvent :=
  [.store 0 0, .accept "0a" "kody.test", .answer, .index 0 0 .returns, .mark 0 "e1" .returns,
    .report .failed, .resolve, .update 1 "e2" none none .returns, .audit .returns]

/-- The bridge's report is looked up before the index is written. -/
def earlyReport : List SendEvent :=
  [.store 0 0, .accept "0a" "kody.test", .report .sent, .resolve, .answer, .index 0 0 .returns,
    .mark 0 "e1" .returns, .audit .returns]

/-- The report of a failure is handled before `queued` is written. -/
def overwrittenReport : List SendEvent :=
  [.store 0 0, .accept "0a" "kody.test", .answer, .index 0 0 .returns, .report .failed, .resolve,
    .update 1 "e1" none none .returns, .mark 2 "e2" .returns, .audit .returns]

/-- The audit row of an accepted message cannot be written. -/
def lostAudit : List SendEvent :=
  [.store 0 0, .accept "0a" "kody.test", .answer, .index 0 0 .returns, .mark 0 "e1" .returns,
    .audit (.lost false (.error "overloaded")), .markFailed 1 "e2" .returns]

/-- The status of the message after a run. -/
def statusAfter (run : List SendEvent) : Option Text :=
  (exec (sendStep noteSend) noteWorld run).bind fun w =>
    (w.cell.messages.find? "m1").bind EmailMessage.deliveryStatus

/-- Whether the send has returned the message after a run, and where its delivery is. -/
def phasesAfter (run : List SendEvent) : Option (Bool × BridgePhase) :=
  (exec (sendStep noteSend) noteWorld run).map fun w =>
    (match w.send with | .returned (.ok _) => true | _ => false, w.bridge)

theorem hasStatus_iff {run : List SendEvent} {w : World}
    (hw : exec (sendStep noteSend) noteWorld run = some w) {status : Text} :
    HasStatus noteSend w.cell status ↔ statusAfter run = some status := by
  unfold statusAfter
  rw [hw, Option.bind_some, Option.bind_eq_some_iff]
  rfl

/-- What the phases after a run say about the world after it. -/
theorem world_of_phases {run : List SendEvent} {ok : Bool} {bridge : BridgePhase}
    (h : phasesAfter run = some (ok, bridge)) :
    ∃ w, exec (sendStep noteSend) noteWorld run = some w ∧ w.bridge = bridge ∧
      (ok = true → ∃ result, w.send = .returned result) := by
  obtain ⟨w, hw, hphases⟩ := Option.map_eq_some_iff.mp h
  obtain ⟨hsend, hbridge⟩ := Prod.mk.inj hphases
  refine ⟨w, hw, hbridge, ?_⟩
  rintro rfl
  split at hsend
  · rename_i record hreturned
    exact ⟨_, hreturned⟩
  · cases hsend

/-- A run whose status is not truthful. -/
def Untruthful (run : List SendEvent) : Prop :=
  ∃ w, exec (sendStep noteSend) noteWorld run = some w ∧ ¬Truthful noteSend w

end KodyCelld.Email
