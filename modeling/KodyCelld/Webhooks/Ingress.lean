import KodyCelld.Lib.Machine
import KodyCelld.Lib.Rows
import KodyCelld.Secrets.ProviderResolution
import KodyCelld.Webhooks.Verify

namespace KodyCelld.Webhooks

open KodyCelld.Lib KodyCelld.Execute KodyCelld.Packages

/-!
# Webhook ingress (`webhooks/ingress.ts`, webhook methods of `cells/user-cell.ts`)

A delivery is admitted by its URL secret, checked against the limits, the clock and the signature of
its definition, claimed under its delivery id, and run.

* `webhookAdmit` — the URL secret, the switch, the declaration and the rate;
* `afterBody`, `afterSignature` — what the body, the timestamp and the signature decide;
* `webhookIdempotencyClaim`, `webhookIdempotencyFinish` — the ledger of delivery ids;
* `webhooks` — deliveries as a cooperative system, with what rotates and switches their handle and
  what rewrites the packages and secrets they read.

Beside the tables the state lists which deliveries came to the count of their minute and which of
them were admitted, the ids that were claimed with their outcomes, the runs that started and the
answers that were given; nothing the source computes depends on these.
-/

/-- What the code is given: SHA-256 of a text in hex digits, HMAC-SHA256 of a message under a key,
    `Date.parse`, `decodeURIComponent` (`none` where it throws) and `KODY_WEBHOOK_MAX_BODY_BYTES`. -/
structure Platform where
  sha256Hex : Text → Text
  hmac : Text → Text → List UInt8
  dateParse : Text → Option ℤ
  decodeURIComponent : Text → Option Text
  webhookMaxBodyBytes : ℕ

/-! ### Tables -/

/-- `secret` is what the sealed columns decrypt to.  `previousSecret` is the text that
    `previousSecretHash` is of; the table keeps its hash only. -/
structure WebhookRow where
  handle : Text
  packageName : Text
  webhookName : Text
  secretHash : Text
  secret : Text
  previousSecretHash : Option Text
  previousExpiresAt : Option ℕ
  previousSecret : Option Text
  enabled : Bool
  updatedAt : ℕ
  rotatedAt : Option ℕ
  lastDeliveryAt : Option ℕ
  deliveries : ℕ
  deriving DecidableEq

structure RateRow where
  handle : Text
  minute : ℕ
  n : ℕ
  deriving DecidableEq

def RateRow.key (row : RateRow) : Text × ℕ := (row.handle, row.minute)

/-- The id a delivery is claimed under: its provider's delivery id, or a key of its client. -/
inductive DeliveryId where
  | delivery (value : Text)
  | client (key : Text)
  deriving DecidableEq, Repr

/-- `MAX_IDEMPOTENCY_KEY` -/
def maxIdempotencyKey : ℕ := 200

/-- The key of the ledger: a delivery id is cut off. -/
def DeliveryId.key : DeliveryId → Text
  | .delivery value => "delivery:" ++ value.take maxIdempotencyKey
  | .client key => "client:" ++ key

/-- Vendor ids match by key alone. -/
def DeliveryId.payloadHash (p : Platform) (body : Text) : DeliveryId → Option Text
  | .delivery _ => none
  | .client _ => some (p.sha256Hex body)

inductive IdempotencyStatus where
  | running | success | error
  deriving DecidableEq, Repr

/-- `id` and `body` are those of the delivery that inserted the row; the table keeps the key and the
    hash only. -/
structure IdempotencyRow where
  handle : Text
  key : Text
  payloadHash : Option Text
  runId : Option Text
  status : IdempotencyStatus
  resultJson : Option Text
  createdAt : ℕ
  id : DeliveryId
  body : Text
  deriving DecidableEq

def IdempotencyRow.primaryKey (row : IdempotencyRow) : Text × Text := (row.handle, row.key)

inductive DeliveryStatus where
  | accepted | rejected | replayed | success | error
  deriving DecidableEq, Repr

structure DeliveryRow where
  id : Text
  handle : Text
  receivedAt : ℕ
  finishedAt : Option ℕ
  status : DeliveryStatus
  httpStatus : ℕ
  reason : Option Text
  runId : Option Text
  idempotencyKey : Option Text
  bodyBytes : Lib.Num
  contentType : Option Text

/-- A secret; `value` is what its sealed columns decrypt to, `none` where no key of the keyring
    opens them. -/
structure SecretRow where
  name : Text
  scope : Secrets.SecretScope
  packageName : Text
  value : Option Text
  deriving DecidableEq

/-! ### Requests and answers -/

/-- A request, with the parts of its URL and its headers by lower-case name, each once. -/
structure Request where
  method : Text
  origin : Text
  segments : List Text
  search : Text
  headers : List (Text × Text)
  body : Text
  deriving DecidableEq, Repr

/-- `request.headers.get(name)` -/
def Request.header (r : Request) (name : Text) : Option Text :=
  (r.headers.find? fun h => h.1 = lower name).map Prod.snd

def Request.contentType (r : Request) : Option Text :=
  (r.header "content-type").map fun value => lower (trim ((value.splitOn ';').headD []))

/-- `new TextEncoder().encode(body).byteLength` -/
def Request.bodyBytes (r : Request) : ℕ := utf8Length r.body

/-- What the handler answers. -/
inductive Response where
  | refused (status : ℕ) (error message : Text)
  | accepted (deliveryId : Text)
  | acceptedReplay (runId : Option (Option Text))
  | replayed (ok : Bool) (runId : Option Text) (result : Option Text)
  | ran (ok : Bool) (deliveryId runId : Text) (result error : Option Text)
  | threw (message : Text)
  deriving DecidableEq, Repr

/-- Providers see generic failures. -/
def rejected (status : ℕ) (reason : Text) : Response :=
  if status = 429 then
    .refused status "rate_limited" "Too many deliveries for this webhook; retry later."
  else if status = 413 then
    .refused status "payload_too_large" "Webhook body exceeds the configured limit."
  else if status = 401 then
    .refused status "unauthorized" "Webhook signature verification failed."
  else if status = 409 then
    .refused status reason "This delivery conflicts with a previous one."
  else if status = 400 then
    .refused status reason "The webhook request could not be interpreted."
  else .refused status "not_found" "No such webhook."

/-- A request for one webhook of the user, with the parts of its URL decoded. -/
structure Delivery where
  request : Request
  handle : Text
  secret : Text
  deriving DecidableEq, Repr

/-- What admitted a delivery: the row as it was read, the definition, the time of the request, and
    how many deliveries of the handle had been admitted in that minute. -/
structure Admission where
  row : WebhookRow
  manifest : PackageManifest
  definition : WebhookDefinition
  usedPrevious : Bool
  now : ℕ
  earlier : ℕ

/-- A message whose HMAC a signature carried, the text it was keyed with, and the secrets at that
    moment. -/
structure Signed where
  message : Text
  key : Text
  secrets : List SecretRow

/-- A delivery that passed every check; `signed` where its webhook verifies signatures. -/
structure Passed where
  delivery : Delivery
  admission : Admission
  signed : Option Signed

inductive ClaimState where
  | new
  | inProgress
  | conflict
  | replay (runId : Option Text) (resultJson : Option Text) (status : IdempotencyStatus)
  deriving DecidableEq, Repr

/-- A delivery that claimed its id, and what it was told. -/
structure Attempt where
  number : ℕ
  handle : Text
  id : DeliveryId
  body : Text
  createdAt : ℕ
  state : ClaimState
  deriving DecidableEq

/-- What the run of a delivery is given. -/
inductive RunParams where
  | members (params : List (Text × Json))
  | request (handle name packageName deliveryId : Text) (receivedAt : ℕ) (usedPreviousSecret : Bool)
      (method url : Text) (headers : List (Text × Text)) (body : Text) (json : Json)

/-- How a run of the package ended. -/
inductive RunEnd where
  | threw (message : Text)
  | finished (ok : Bool) (runId : Text) (resultJson : Option Text) (error : Option Text)

structure RunStart where
  passed : Passed
  attempt : Option Attempt
  params : RunParams

structure Answer where
  handle : Text
  attempt : Option Attempt
  response : Response

/-! ### The state -/

/-- The tables that deliveries read and write, and what happened so far, latest first. -/
structure WebhookState where
  webhooks : Rows WebhookRow.handle
  rates : Rows RateRow.key
  idempotency : Rows IdempotencyRow.primaryKey
  deliveries : Rows DeliveryRow.id
  manifests : Text → Option PackageManifest
  secrets : List SecretRow
  arrivals : List (Text × ℕ)
  admissions : List (Text × ℕ)
  attempts : List Attempt
  runs : List RunStart
  answers : List Answer

inductive Call where
  | deliver (request : Request)
  | webhookRotate (handle : Text)
  | webhookSetEnabled (handle : Text) (enabled : Bool)
  | packageWrite (name : Text) (manifest : Option PackageManifest)
  | secretWrite (secrets : List SecretRow)

/-- What a row of the delivery ledger is to say. -/
structure DeliveryRecord where
  status : DeliveryStatus
  httpStatus : ℕ
  reason : Option Text
  runId : Option Text
  idempotencyKey : Option Text
  bodyBytes : Lib.Num
  contentType : Option Text

/-- Where a call stands: what it awaits, and what it has learned. -/
inductive Frame where
  | start (call : Call)
  | lookingUp (d : Delivery)
  | admitting (d : Delivery) (now : ℕ)
  | hashing (d : Delivery) (now : ℕ) (row : WebhookRow)
  | readingBody (d : Delivery) (adm : Admission)
  | checkingSignature (d : Delivery) (adm : Admission) (v : WebhookVerification)
      (candidates : List Text) (message : Text)
  | claiming (x : Passed) (params : Option (List (Text × Json))) (id : DeliveryId)
  | accepting (x : Passed) (params : Option (List (Text × Json))) (attempt : Option Attempt)
  | running (x : Passed) (attempt : Option Attempt) (deliveryId : Text)
  | finishing (x : Passed) (attempt : Option Attempt) (deliveryId : Text) (outcome : RunEnd)
  | finishingClaim (x : Passed) (attempt : Option Attempt) (deliveryId : Text) (outcome : RunEnd)
  | recording (d : Delivery) (record : DeliveryRecord) (attempt : Option Attempt)
      (response : Response)
  | rotating (handle : Text)

/-- A delivery answers through the list of answers, since it may answer before its run is over. -/
inductive Ret where
  | delivered
  | webhook (row : Except Thrown (Option WebhookRow))
  | written

/-- What the outside supplies to one piece: the clock, whether the registry knows the user, a random
    id, a random secret, and the end of a run. -/
structure Input where
  now : ℕ
  user : Bool
  id : Text
  secret : Text
  run : RunEnd

namespace WebhookState

def answer (s : WebhookState) (handle : Text) (attempt : Option Attempt) (response : Response) :
    WebhookState :=
  { s with answers := ⟨handle, attempt, response⟩ :: s.answers }

def webhookDefinition (s : WebhookState) (packageName webhookName : Text) :
    Option (PackageManifest × WebhookDefinition) :=
  (s.manifests packageName).bind fun manifest =>
    (manifest.webhooks.find? fun hook => hook.name = webhookName).map fun hook => (manifest, hook)

/-- How many deliveries of the handle were admitted in the minute. -/
def admittedIn (s : WebhookState) (handle : Text) (minute : ℕ) : ℕ :=
  s.admissions.count (handle, minute)

end WebhookState

/-! ### Admission -/

/-- `UPDATE webhooks SET … WHERE handle = ?` -/
def updateWebhook (webhooks : Rows WebhookRow.handle) (handle : Text)
    (change : WebhookRow → WebhookRow) (hkey : ∀ row, (change row).handle = row.handle) :
    Rows WebhookRow.handle :=
  webhooks.map (fun row => if row.handle = handle then change row else row) fun row => by
    split
    · exact hkey row
    · rfl

def matchesCurrent (p : Platform) (d : Delivery) (row : WebhookRow) : Bool :=
  decide (p.sha256Hex d.secret = row.secretHash)

def matchesPrevious (p : Platform) (d : Delivery) (now : ℕ) (row : WebhookRow) : Bool :=
  let previousLive := row.previousSecretHash.isSome &&
    row.previousExpiresAt.any fun expiresAt => decide (now < expiresAt)
  previousLive && decide (p.sha256Hex d.secret = row.previousSecretHash.getD [])

/-- `DELETE FROM webhook_rate WHERE handle = ? AND minute != ?` -/
def dropOtherMinutes (rates : Rows RateRow.key) (handle : Text) (minute : ℕ) : Rows RateRow.key :=
  rates.filter fun row => decide (row.handle ≠ handle) || decide (row.minute = minute)

def rateCount (rates : Rows RateRow.key) (handle : Text) (minute : ℕ) : ℕ :=
  ((rates.find? (handle, minute)).map RateRow.n).getD 0

def countDelivery (rates : Rows RateRow.key) (handle : Text) (minute : ℕ) : Rows RateRow.key :=
  rates.upsert ⟨handle, minute, 1⟩ (fun row => { row with n := row.n + 1 }) fun _ => rfl

/-- The writes of an admission to `webhooks`: the first one under a new secret ends the previous. -/
def admitWebhook (p : Platform) (webhooks : Rows WebhookRow.handle) (d : Delivery) (now : ℕ)
    (row : WebhookRow) : Rows WebhookRow.handle :=
  let webhooks := if matchesCurrent p d row && row.previousSecretHash.isSome then
      updateWebhook webhooks d.handle (fun r => { r with
        previousSecretHash := none, previousExpiresAt := none, previousSecret := none }) fun _ => rfl
    else webhooks
  updateWebhook webhooks d.handle
    (fun r => { r with lastDeliveryAt := some now, deliveries := r.deliveries + 1 }) fun _ => rfl

/-- `webhookAdmit` behind the digest of the URL secret: the row is the one read before it. -/
def webhookAdmit (p : Platform) (s : WebhookState) (d : Delivery) (now : ℕ) (row : WebhookRow) :
    Except (ℕ × Text) Admission × WebhookState :=
  if !matchesCurrent p d row && !matchesPrevious p d now row then
    (.error (404, "secret_mismatch"), s)
  else if !row.enabled then (.error (404, "disabled"), s)
  else match s.webhookDefinition row.packageName row.webhookName with
    | none => (.error (404, "not_declared"), s)
    | some (manifest, definition) =>
      let minute := now / 60000
      let rates := dropOtherMinutes s.rates d.handle minute
      if definition.rateLimitPerMinute ≤ rateCount rates d.handle minute then
        (.error (429, "rate_limited"),
          { s with rates := rates, arrivals := (d.handle, minute) :: s.arrivals })
      else
        (.ok ⟨row, manifest, definition, !matchesCurrent p d row, now, s.admittedIn d.handle minute⟩,
          { s with
            rates := countDelivery rates d.handle minute
            webhooks := admitWebhook p s.webhooks d now row
            arrivals := (d.handle, minute) :: s.arrivals
            admissions := (d.handle, minute) :: s.admissions })

/-! ### The delivery ledger -/

/-- `webhookDeliveryRecord`; `none` where the id is taken. -/
def webhookDeliveryRecord (s : WebhookState) (i : Input) (handle : Text) (r : DeliveryRecord) :
    Option WebhookState :=
  let finishedAt := if r.status = .accepted then none else some i.now
  let mine : DeliveryRow → Bool := fun row => decide (row.handle = handle)
  (s.deliveries.insert? ⟨i.id, handle, i.now, finishedAt, r.status, r.httpStatus, r.reason, r.runId,
    r.idempotencyKey, r.bodyBytes, r.contentType⟩).map fun deliveries =>
      { s with deliveries := deliveries.keepNewest mine DeliveryRow.receivedAt 200 }

def webhookDeliveryFinish (s : WebhookState) (id : Text) (now : ℕ) (status : DeliveryStatus)
    (runId reason : Option Text) : WebhookState :=
  { s with deliveries := s.deliveries.map (fun row =>
      if row.id = id then
        { row with status := status, finishedAt := some now, runId := runId, reason := reason }
      else row) fun row => by split <;> rfl }

/-! ### The ledger of delivery ids -/

/-- What the row of a key tells a delivery that comes with this payload hash. -/
def IdempotencyRow.claimState (row : IdempotencyRow) (payloadHash : Option Text) : ClaimState :=
  if payloadHash.isSome ∧ row.payloadHash.isSome ∧ row.payloadHash ≠ payloadHash then .conflict
  else if row.status = .running then .inProgress
  else .replay row.runId row.resultJson row.status

/-- `webhookIdempotencyClaim` -/
def webhookIdempotencyClaim (p : Platform) (s : WebhookState) (handle : Text) (id : DeliveryId)
    (body : Text) (now : ℕ) : ClaimState × Rows IdempotencyRow.primaryKey :=
  match s.idempotency.find? (handle, id.key) with
  | some row => (row.claimState (id.payloadHash p body), s.idempotency)
  | none =>
    let row : IdempotencyRow :=
      ⟨handle, id.key, id.payloadHash p body, none, .running, none, now, id, body⟩
    -- the key is free, so the insertion does not fail
    (.new, ((s.idempotency.insert? row).getD s.idempotency).keepNewest
      (fun row => decide (row.handle = handle)) IdempotencyRow.createdAt 1000)

/-- `webhookIdempotencyFinish` -/
def webhookIdempotencyFinish (s : WebhookState) (handle key : Text) (status : IdempotencyStatus)
    (runId resultJson : Option Text) : WebhookState :=
  let stored := resultJson.filter fun text => decide (utf16Length text ≤ 64 * 1024)
  { s with idempotency := s.idempotency.map (fun row =>
      if row.handle = handle ∧ row.key = key then
        { row with status := status, runId := runId, resultJson := stored }
      else row) fun row => by split <;> rfl }

/-! ### Signatures -/

/-- What `String` prints of a member that every object inherits. -/
def inheritedText (name : Text) : Option Text :=
  if name ∉ objectPrototype then none
  else if name = "__proto__" then some "[object Object]"
  else
    let function : Text := if name = "constructor" then "Object" else name
    some ("function " ++ function ++ "() \x7b [native code] \x7d")

/-- `secretResolveValues` of one name without a scope: the value of the first secret of the name that
    the package may see. -/
def secretMatch (secrets : List SecretRow) (name packageName : Text) : Option SecretRow :=
  secrets.find? fun row =>
    decide (row.name = name) && (decide (row.scope ≠ .package) || decide (row.packageName = packageName))

/-- `resolved.values[name]` as the text it is encoded as; the error is a secret that does not open. -/
def secretValue (secrets : List SecretRow) (name packageName : Text) : Except Text (Option Text) :=
  match secretMatch secrets name packageName with
  | none => .ok (inheritedText name)
  | some row =>
    match row.value with
    | none => .error "The secret could not be decrypted."
    | some value =>
      let values : Obj Text := Obj.empty.set name value
      .ok ((values.get? name).orElse fun _ => inheritedText name)

/-! ### The checks -/

/-- A rejection of an admitted delivery: written to the ledger, then answered. -/
def reject (d : Delivery) (status : ℕ) (reason : Text) (bodyBytes : Lib.Num) : Frame :=
  .recording d ⟨.rejected, status, some reason, none, none, bodyBytes, d.request.contentType⟩ none
    (rejected status reason)

/-- `request.headers.get(replay.timestampHeader)`; `none` without replay protection. -/
def timestampHeader (definition : WebhookDefinition) : Option Text :=
  (definition.replay.bind WebhookReplay.timestampHeader).filter fun name => decide (name ≠ [])

def replayFormat (definition : WebhookDefinition) : TimestampFormat :=
  timestampFormat (definition.replay.bind WebhookReplay.timestampFormat)

def toleranceSeconds (definition : WebhookDefinition) : ℕ :=
  (definition.replay.bind WebhookReplay.toleranceSeconds).getD 300

def timestampRaw (r : Request) (definition : WebhookDefinition) : Option Text :=
  (timestampHeader definition).bind r.header

/-- Why the timestamp is refused. -/
def staleReason (p : Platform) (r : Request) (definition : WebhookDefinition) (now : ℕ) :
    Option Text :=
  if timestampHeader definition = none then none
  else match parseTimestamp p.dateParse (timestampRaw r definition) (replayFormat definition) with
    | none => some "timestamp_missing"
    | some timestamp =>
      if withinTolerance timestamp now (toleranceSeconds definition) then none
      else some "timestamp_out_of_window"

def parseJson (body : Text) : Option Json := if trim body = [] then none else jsonParse body

/-- The params of a webhook that takes its body as params; `none` where the body is no object. -/
def bodyParams (body : Text) : Option (List (Text × Json)) :=
  match parseJson body with
  | some (.obj record) =>
    match Json.member record "params" with
    | some (.obj params) => some params
    | _ => some record
  | _ => none

/-- The id a delivery is claimed under, `none` where it carries none; the error is a key that is too
    long. -/
def deliveryId (r : Request) (definition : WebhookDefinition) (params : Option (List (Text × Json))) :
    Except Text (Option DeliveryId) :=
  let deliveryIdValue := ((definition.replay.bind WebhookReplay.deliveryIdHeader).bind r.header).filter
    fun value => decide (value ≠ [])
  let explicitKey := (r.header "idempotency-key").orElse fun _ =>
    params.bind fun params => Json.text? (Json.member params "idempotencyKey")
  match deliveryIdValue, explicitKey.filter fun key => decide (key ≠ []) with
  | some value, _ => .ok (some (.delivery value))
  | none, none => .ok none
  | none, some key =>
    if maxIdempotencyKey < utf16Length key then .error "idempotency_key_too_long"
    else .ok (some (.client key))

/-- What follows the signature: the params, and the id to claim. -/
def afterSignature (x : Passed) : Frame :=
  let definition := x.admission.definition
  let body := x.delivery.request.body
  let bodyBytes := Num.fin x.delivery.request.bodyBytes
  let params := if definition.inputMode = .params then bodyParams body else none
  if definition.inputMode = .params ∧ params = none then
    reject x.delivery 400 "invalid_params" bodyBytes
  else match deliveryId x.delivery.request definition params with
    | .error reason => reject x.delivery 400 reason bodyBytes
    | .ok none => .accepting x params none
    | .ok (some id) => .claiming x params id

/-- What follows the admission: the announced length. -/
def afterAdmission (p : Platform) (d : Delivery) (adm : Admission) : Frame :=
  let declaredLength := numberOf ((d.request.header "content-length").getD "0")
  if (Num.fin p.webhookMaxBodyBytes).lt declaredLength then
    reject d 413 "body_too_large" declaredLength
  else .readingBody d adm

/-- What follows the body: its length, the timestamp, and what is signed. -/
def afterBody (p : Platform) (d : Delivery) (adm : Admission) : Frame :=
  let definition := adm.definition
  let bodyBytes := Num.fin d.request.bodyBytes
  if p.webhookMaxBodyBytes < d.request.bodyBytes then reject d 413 "body_too_large" bodyBytes
  else match staleReason p d.request definition adm.now with
    | some reason => reject d 401 reason bodyBytes
    | none =>
      match definition.verification with
      | none => afterSignature ⟨d, adm, none⟩
      | some v =>
        let candidates := parseSignatureHeader (d.request.header v.header) v
        if candidates = [] then reject d 401 "signature_missing" bodyBytes
        else match signedMessage v d.request.body (timestampRaw d.request definition)
            (replayFormat definition) with
          | none => reject d 401 "timestamp_missing" bodyBytes
          | some message => .checkingSignature d adm v candidates message

/-! ### The pieces of a delivery -/

/-- The parts of the URL, decoded. -/
def deliveryOf (p : Platform) (r : Request) : Except Response Delivery :=
  match p.decodeURIComponent (r.segments.getD 1 []), p.decodeURIComponent (r.segments.getD 2 []),
      p.decodeURIComponent (r.segments.getD 3 []) with
  | some userId, some handle, some secret =>
    if r.segments.length ≠ 4 ∨ userId = [] ∨ handle = [] ∨ secret = [] then
      .error (rejected 404 "malformed")
    else if r.method ≠ "POST" then
      .error (.refused 405 "method_not_allowed" "Webhooks accept POST.")
    else .ok ⟨r, handle, secret⟩
  | _, _, _ => .error (.threw "URI malformed")

def redactedUrl (r : Request) : Text :=
  r.origin ++ '/' :: ("/" : Text).intercalate (r.segments.set 3 "<secret>") ++ r.search

def headersToObject (headers : List (Text × Text)) : List (Text × Text) :=
  headers.filter fun h => decide (h.1 ≠ "authorization" ∧ h.1 ≠ "cookie")

/-- What the run is given: the params of the body, or the whole request. -/
def runParams (x : Passed) (params : Option (List (Text × Json))) (deliveryId : Text) : RunParams :=
  match params with
  | some params => .members params
  | none =>
    let r := x.delivery.request
    .request x.delivery.handle x.admission.definition.name x.admission.row.packageName deliveryId
      x.admission.now x.admission.usedPrevious r.method (redactedUrl r) (headersToObject r.headers)
      r.body ((parseJson r.body).getD .null)

/-- What follows the claim of an id: only a new one is run. -/
def afterClaim (x : Passed) (params : Option (List (Text × Json))) (a : Attempt) : Frame :=
  let d := x.delivery
  let ack := decide (x.admission.definition.responseMode = .ack)
  let replayed := fun (status : ℕ) (reason : Text) (runId : Option Text) (response : Response) =>
    Frame.recording d ⟨.replayed, status, some reason, runId, some a.id.key,
      .fin d.request.bodyBytes, d.request.contentType⟩ (some a) response
  match a.state with
  | .new => .accepting x params (some a)
  | .conflict =>
    .recording d ⟨.rejected, 409, some "idempotency_mismatch", none, none, .fin d.request.bodyBytes,
      d.request.contentType⟩ (some a) (rejected 409 "idempotency_mismatch")
  | .inProgress =>
    replayed (if ack then 202 else 409) "in_progress" none
      (if ack then .acceptedReplay none else rejected 409 "invocation_in_progress")
  | .replay runId resultJson status =>
    replayed (if ack then 202 else 200) "replay" runId
      (if ack then .acceptedReplay (some runId)
       else .replayed (decide (status = .success)) runId resultJson)

def claimPiece (p : Platform) (s : WebhookState) (x : Passed) (params : Option (List (Text × Json)))
    (id : DeliveryId) (now : ℕ) : WebhookState × Frame :=
  let (state, idempotency) := webhookIdempotencyClaim p s x.delivery.handle id x.delivery.request.body now
  let a : Attempt :=
    ⟨s.attempts.length, x.delivery.handle, id, x.delivery.request.body, now, state⟩
  ({ s with idempotency := idempotency, attempts := a :: s.attempts }, afterClaim x params a)

/-- The accepted delivery is written down, and its run starts; `ack` answers at once. -/
def acceptPiece (s : WebhookState) (x : Passed) (params : Option (List (Text × Json)))
    (attempt : Option Attempt) (i : Input) : Option (WebhookState × Frame) :=
  let ack := decide (x.admission.definition.responseMode = .ack)
  let record : DeliveryRecord := ⟨.accepted, if ack then 202 else 200, none, none,
    attempt.map fun a => a.id.key, .fin x.delivery.request.bodyBytes, x.delivery.request.contentType⟩
  (webhookDeliveryRecord s i x.delivery.handle record).map fun s =>
    let s := { s with runs := ⟨x, attempt, runParams x params i.id⟩ :: s.runs }
    (if ack then s.answer x.delivery.handle attempt (.accepted i.id) else s,
      .running x attempt i.id)

/-- A synchronous delivery answers with its run. -/
def conclude (s : WebhookState) (x : Passed) (attempt : Option Attempt) (deliveryId : Text)
    (outcome : RunEnd) : WebhookState :=
  if x.admission.definition.responseMode = .ack then s
  else s.answer x.delivery.handle attempt (match outcome with
    | .threw message => .threw message
    | .finished ok runId result error =>
      .ran ok deliveryId runId (if ok then result else none) (if ok then none else error))

def finishPiece (s : WebhookState) (x : Passed) (attempt : Option Attempt) (deliveryId : Text)
    (outcome : RunEnd) (now : ℕ) : WebhookState × (Frame ⊕ Ret) :=
  let s := match outcome with
    | .threw message => webhookDeliveryFinish s deliveryId now .error none (some message)
    | .finished ok runId _ error => webhookDeliveryFinish s deliveryId now (if ok then .success else .error)
        (some runId) (if ok then none else some (error.getD "error"))
  match attempt with
  | none => (conclude s x attempt deliveryId outcome, .inr .delivered)
  | some _ => (s, .inl (.finishingClaim x attempt deliveryId outcome))

def finishClaimPiece (s : WebhookState) (x : Passed) (attempt : Option Attempt) (deliveryId : Text)
    (outcome : RunEnd) : WebhookState :=
  let s := match attempt with
    | none => s
    | some a =>
      match outcome with
      | .threw _ => webhookIdempotencyFinish s x.delivery.handle a.id.key .error none none
      | .finished ok runId result _ => webhookIdempotencyFinish s x.delivery.handle a.id.key
          (if ok then .success else .error) (some runId) (if ok then result else none)
  conclude s x attempt deliveryId outcome

/-- `webhookSignatureCheck`, and what follows it. -/
def signaturePiece (p : Platform) (s : WebhookState) (d : Delivery) (adm : Admission)
    (v : WebhookVerification) (candidates : List Text) (message : Text) :
    WebhookState × (Frame ⊕ Ret) :=
  match secretValue s.secrets v.secretName adm.row.packageName with
  | .error message => (s.answer d.handle none (.threw message), .inr .delivered)
  | .ok none => (s, .inl (reject d 401 "secret_missing" (.fin d.request.bodyBytes)))
  | .ok (some key) =>
    if signatureMatches candidates (p.hmac key message) v.encoding then
      (s, .inl (afterSignature ⟨d, adm, some ⟨message, key, s.secrets⟩⟩))
    else (s, .inl (reject d 401 "signature_mismatch" (.fin d.request.bodyBytes)))

/-- `webhookAdmit` from the digest on, and what follows it. -/
def admitPiece (p : Platform) (s : WebhookState) (d : Delivery) (now : ℕ) (row : WebhookRow) :
    WebhookState × Frame :=
  match webhookAdmit p s d now row with
  | (.error (status, reason), s) =>
    (s, .recording d ⟨.rejected, status, some reason, none, none, .fin 0, none⟩ none
      (rejected status reason))
  | (.ok adm, s) => (s, afterAdmission p d adm)

def webhookNotFound (handle : Text) : Thrown :=
  .kody "webhook_not_found" ("Webhook \"" ++ handle ++ "\" was not found.") 404

/-- The previous secret stays valid for a day. -/
def webhookPreviousSecretGraceMs : ℕ := 24 * 60 * 60 * 1000

/-- `webhookRotate` behind the sealing of the new secret. -/
def rotate (p : Platform) (s : WebhookState) (handle : Text) (i : Input) : WebhookState :=
  { s with webhooks := updateWebhook s.webhooks handle (fun row => { row with
      previousSecretHash := some row.secretHash
      previousExpiresAt := some (i.now + webhookPreviousSecretGraceMs)
      previousSecret := some row.secret
      secretHash := p.sha256Hex i.secret
      secret := i.secret
      rotatedAt := some i.now
      updatedAt := i.now }) fun _ => rfl }

def startPiece (p : Platform) (s : WebhookState) (i : Input) : Call → WebhookState × (Frame ⊕ Ret)
  | .deliver request =>
    match deliveryOf p request with
    | .error response => (s.answer [] none response, .inr .delivered)
    | .ok d => (s, .inl (.lookingUp d))
  | .webhookRotate handle =>
    match s.webhooks.find? handle with
    | none => (s, .inr (.webhook (.error (webhookNotFound handle))))
    | some _ => (s, .inl (.rotating handle))
  | .webhookSetEnabled handle enabled =>
    match s.webhooks.find? handle with
    | none => (s, .inr (.webhook (.error (webhookNotFound handle))))
    | some _ =>
      let webhooks := updateWebhook s.webhooks handle
        (fun row => { row with enabled := enabled, updatedAt := i.now }) fun _ => rfl
      ({ s with webhooks := webhooks }, .inr (.webhook (.ok (webhooks.find? handle))))
  | .packageWrite name manifest =>
    ({ s with manifests := fun other => if other = name then manifest else s.manifests other },
      .inr .written)
  | .secretWrite secrets => ({ s with secrets := secrets }, .inr .written)

/-- One piece of a call, up to its next `await` or its return. -/
def piece (p : Platform) (s : WebhookState) (f : Frame) (i : Input) :
    Option (WebhookState × (Frame ⊕ Ret)) :=
  match f with
  | .start call => some (startPiece p s i call)
  | .lookingUp d =>
    if i.user then some (s, .inl (.admitting d i.now))
    else some (s.answer d.handle none (rejected 404 "unknown_user"), .inr .delivered)
  | .admitting d now =>
    match s.webhooks.find? d.handle with
    | none => some (s.answer d.handle none (rejected 404 "unknown_handle"), .inr .delivered)
    | some row => some (s, .inl (.hashing d now row))
  | .hashing d now row => some ((admitPiece p s d now row).1, .inl (admitPiece p s d now row).2)
  | .readingBody d adm => some (s, .inl (afterBody p d adm))
  | .checkingSignature d adm v candidates message =>
    some (signaturePiece p s d adm v candidates message)
  | .claiming x params id =>
    some ((claimPiece p s x params id i.now).1, .inl (claimPiece p s x params id i.now).2)
  | .accepting x params attempt => (acceptPiece s x params attempt i).map fun (s, f) => (s, .inl f)
  | .running x attempt deliveryId => some (s, .inl (.finishing x attempt deliveryId i.run))
  | .finishing x attempt deliveryId outcome =>
    some (finishPiece s x attempt deliveryId outcome i.now)
  | .finishingClaim x attempt deliveryId outcome =>
    some (finishClaimPiece s x attempt deliveryId outcome, .inr .delivered)
  | .recording d record attempt response =>
    (webhookDeliveryRecord s i d.handle record).map fun s =>
      (s.answer d.handle attempt response, .inr .delivered)
  | .rotating handle =>
    some (rotate p s handle i, .inr (.webhook (.ok ((rotate p s handle i).webhooks.find? handle))))

/-- **Deliveries as cooperative calls** over the tables of the user. -/
def webhooks (p : Platform) : Coop where
  Shared := WebhookState
  Call := Call
  Frame := Frame
  Input := Input
  Ret := Ret
  start := .start
  resume := piece p

/-- Handles as they were minted, and nothing delivered yet. -/
def minted (p : Platform) (rows : Rows WebhookRow.handle)
    (manifests : Text → Option PackageManifest) (secrets : List SecretRow) : WebhookState where
  webhooks := rows.map (fun row => { row with
    secretHash := p.sha256Hex row.secret, previousSecretHash := row.previousSecret.map p.sha256Hex })
    fun _ => rfl
  rates := .empty
  idempotency := .empty
  deliveries := .empty
  manifests := manifests
  secrets := secrets
  arrivals := []
  admissions := []
  attempts := []
  runs := []
  answers := []

end KodyCelld.Webhooks
