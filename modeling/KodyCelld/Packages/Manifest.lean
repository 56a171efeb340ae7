import KodyCelld.Execute.ImportSpecifiers
import KodyCelld.Jobs.Schedule

namespace KodyCelld.Packages

open KodyCelld.Lib KodyCelld.Jobs KodyCelld.Execute

/-!
# Package manifests (`packages/manifest.ts`)

`parsePackageManifest` reads `package.json`, checks every field in the order of the source and
then that the static relative imports reached from the entry points resolve.  It is a function of
the files alone: it throws or returns a manifest, and writes nothing.

* `parsePackageManifest`, `normalizeModulePath`, `manifestJson` (its `JSON.stringify`);
* `parsePackageManifest_parts` — what an accepted manifest has gone through, section by section;
* `parsePackageManifest_providerId` — the provider id that a manifest declares is well formed.
-/

structure JobDefinition where
  entry : Text
  schedule : JobSchedule
  timezone : Option Text
  enabled : Option Bool
  description : Option Text
  deriving DecidableEq, Repr

inductive SignatureEncoding where
  | hex | base64
  deriving DecidableEq, Repr

inductive SignedPayload where
  | body | timestampBody
  deriving DecidableEq, Repr

/-- `type` is always `hmac-sha256`; `signaturePrefix` is the field `prefix`. -/
structure WebhookVerification where
  header : Text
  secretName : Text
  encoding : SignatureEncoding
  signaturePrefix : Option Text
  signedPayload : SignedPayload
  deriving DecidableEq, Repr

/-- `timestampFormat` is kept as the JSON value it is (an array may print as a format). -/
structure WebhookReplay where
  timestampHeader : Option Text
  timestampFormat : Option Json
  toleranceSeconds : Option ℕ
  deliveryIdHeader : Option Text

inductive ResponseMode where
  | ack | sync
  deriving DecidableEq, Repr

inductive InputMode where
  | request | params
  deriving DecidableEq, Repr

/-- `exports[name]`: a module path, or a member that every object inherits. -/
inductive ExportEntry where
  | path (file : Text)
  | inherited (key : Text)
  deriving DecidableEq, Repr

structure WebhookDefinition where
  name : Text
  exportName : Text
  entry : ExportEntry
  responseMode : ResponseMode
  inputMode : InputMode
  rateLimitPerMinute : ℕ
  verification : Option WebhookVerification
  replay : Option WebhookReplay
  description : Option Text

structure SubscriptionDefinition where
  topic : Text
  handler : Text
  description : Option Text
  deriving DecidableEq, Repr

structure SecretProviderDefinition where
  id : Text
  entry : Text
  description : Option Text
  deriving DecidableEq, Repr

structure AppDefinition where
  entry : Text
  assets : Option Text
  client : Bool
  deriving DecidableEq, Repr

structure PackageManifest where
  name : Text
  version : Text
  description : Text
  exports : Obj Text
  jobs : Obj JobDefinition
  webhooks : List WebhookDefinition
  subscriptions : List SubscriptionDefinition
  secretProvider : Option SecretProviderDefinition
  app : Option AppDefinition
  dependencies : Obj Text
  hidden : Bool
  keywords : List Text

abbrev PackageFiles := Obj Text

def subscriptionTopics : List Text :=
  ["email.message.received", "email.message.quarantined", "email.message.delivery.updated",
    "integration.auth.succeeded", "integration.auth.failed"]

def secretProviderExportName : Text := "secretProvider"

def webhookDefaultRateLimit : ℕ := 60

def webhookMaxRateLimit : ℕ := 600

/-! ### Names and paths -/

def isLowerAlnum (c : Char) : Bool := isDigit c || ('a' ≤ c && c ≤ 'z')

/-- `[a-z0-9._-]` -/
def isNameChar (c : Char) : Bool := isLowerAlnum c || c == '.' || c == '_' || c == '-'

/-- `[a-z0-9][a-z0-9._-]*` -/
def isPlainName : Text → Bool
  | [] => false
  | c :: rest => isLowerAlnum c && rest.all isNameChar

/-- `packageNamePattern`: an npm name, optionally scoped. -/
def packageNamePattern (name : Text) : Bool :=
  match name with
  | '@' :: body =>
    match body.dropWhile isNameChar with
    | '/' :: rest => isPlainName (body.takeWhile isNameChar) && isPlainName rest
    | _ => false
  | _ => isPlainName name

def webhookNamePattern (name : Text) : Bool :=
  match name with
  | [] => false
  | c :: rest => isLowerAlnum c && rest.all fun c => isLowerAlnum c || c == '-'

def secretProviderIdPattern (id : Text) : Bool := isPlainName id && decide (id.length ≤ 64)

/-- `/^[a-z0-9][a-z0-9._-]*$/i` -/
def jobNamePattern (name : Text) : Bool :=
  match name with
  | [] => false
  | c :: rest =>
    (isDigit c || isLetter c) &&
      rest.all fun c => isDigit c || isLetter c || c == '.' || c == '_' || c == '-'

/-- `/^[a-zA-Z0-9._-]+$/` -/
def secretNamePattern (name : Text) : Bool :=
  !name.isEmpty && name.all fun c => isDigit c || isLetter c || c == '.' || c == '_' || c == '-'

/-- The loop of `normalizeModulePath`, with the parts in reverse; `none` when the path escapes. -/
def normalizeSegments : (segments parts : List Text) → Option (List Text)
  | [], parts => some parts.reverse
  | segment :: rest, parts =>
    if segment = [] ∨ segment = "." then normalizeSegments rest parts
    else if segment = ".." then
      match parts with
      | [] => none
      | _ :: parts => normalizeSegments rest parts
    else normalizeSegments rest (segment :: parts)

def normalizeModulePath (path : Text) : Except Thrown Text :=
  let next := (trim path).map fun c => if c = '\\' then '/' else c
  let next := dropDotSlash next
  let next := match next with
    | '/' :: rest => rest
    | _ => next
  match normalizeSegments (next.splitOn '/') [] with
  | none => .error (.kody "invalid_path" ("Path \"" ++ path ++ "\" escapes the package root."))
  | some [] => .error (.kody "invalid_path" ("Path \"" ++ path ++ "\" is empty."))
  | some parts => .ok (['/'].intercalate parts)

/-! ### The fields of `kody` -/

def invalidManifest (message : Text) : Thrown := .kody "invalid_manifest" message

/-- `typeof raw === 'string' && raw.trim()` -/
def nonBlank (raw : Option Json) : Option Text :=
  match Json.text? raw with
  | some s => if trim s = [] then none else some (trim s)
  | none => none

/-- The text of a schedule of type `kind`, under its own field. -/
def scheduleText (raw : List (Text × Json)) (kind field : Text) : Option Text :=
  if Json.text? (Json.member raw "type") = some kind then nonBlank (Json.member raw field) else none

def parseSchedule (raw : Option Json) (jobName : Text) : Except Thrown JobSchedule :=
  match Json.record? raw with
  | none => .error (invalidManifest ("kody.jobs." ++ jobName ++ ".schedule must be an object."))
  | some raw =>
    match scheduleText raw "cron" "expression", scheduleText raw "interval" "every",
      scheduleText raw "once" "runAt" with
    | some expression, _, _ => .ok (.cron expression)
    | none, some every, _ => .ok (.interval every)
    | none, none, some runAt => .ok (.once runAt)
    | none, none, none =>
      .error (invalidManifest ("kody.jobs." ++ jobName ++
        ".schedule must be \x7btype:'cron',expression\x7d | \x7btype:'interval',every\x7d | " ++
        "\x7btype:'once',runAt\x7d."))

/-- A member of `raw` that is `undefined` or a text, under `invalid` otherwise. -/
def optionalText (raw : Option Json) (invalid : Text) : Except Thrown (Option Text) :=
  match raw with
  | none => .ok none
  | some (.str s) => .ok (some s)
  | some _ => .error (invalidManifest invalid)

/-- `raw.trim().toLowerCase()` of a header name that must not be blank. -/
def headerName (raw : Option Json) (invalid : Text) : Except Thrown Text :=
  match nonBlank raw with
  | some name => .ok (lower name)
  | none => .error (invalidManifest invalid)

def parseWebhookVerification (raw : Json) (name : Text) : Except Thrown WebhookVerification := do
  let here : Text := "kody.webhooks[" ++ name ++ "].verification"
  let raw ← match raw with
    | .obj members => .ok members
    | _ => .error (invalidManifest (here ++ " must be an object."))
  if Json.text? (Json.member raw "type") ≠ some "hmac-sha256" then
    throw (invalidManifest (here ++ ".type must be \"hmac-sha256\"."))
  let header ← headerName (Json.member raw "header") (here ++ ".header is required.")
  if (Json.member raw "secret").isSome || (Json.member raw "secretValue").isSome then
    throw (invalidManifest (here ++ " must not carry a secret value; store it with secretSet and " ++
      "reference it via secretName."))
  let secretName ← match Json.text? (Json.member raw "secretName") with
    | some s => if secretNamePattern s then .ok s else
        .error (invalidManifest (here ++
          ".secretName must name a stored secret (never an inline value)."))
    | none => .error (invalidManifest (here ++
        ".secretName must name a stored secret (never an inline value)."))
  let encoding ← match Json.text? (some (Json.orElse (Json.member raw "encoding") (.str "hex"))) with
    | some s =>
      if s = "hex" then .ok SignatureEncoding.hex
      else if s = "base64" then .ok .base64
      else .error (invalidManifest (here ++ ".encoding must be \"hex\" or \"base64\"."))
    | none => .error (invalidManifest (here ++ ".encoding must be \"hex\" or \"base64\"."))
  let signedPayload ←
    match Json.text? (some (Json.orElse (Json.member raw "signedPayload") (.str "body"))) with
    | some s =>
      if s = "body" then .ok SignedPayload.body
      else if s = "timestamp.body" then .ok .timestampBody
      else .error (invalidManifest (here ++
        ".signedPayload must be \"body\" or \"timestamp.body\"."))
    | none => .error (invalidManifest (here ++
        ".signedPayload must be \"body\" or \"timestamp.body\"."))
  let signaturePrefix ← optionalText (Json.member raw "prefix") (here ++ ".prefix must be a string.")
  return { header := header, secretName := secretName, encoding := encoding,
           signaturePrefix := signaturePrefix, signedPayload := signedPayload }

/-- Whether `String(raw)` is the non-empty text `t` without commas: an array prints its elements
    joined by commas. -/
def printsAs (t : Text) : Json → Bool
  | .str s => decide (s = t)
  | .arr [j] => printsAs t j
  | _ => false

def timestampFormats : List Text := ["unix-seconds", "unix-millis", "iso", "stripe-signature"]

/-- An integer between `min` and `max`. -/
def integerBetween (min max : ℕ) (raw : Json) : Option ℕ :=
  match raw with
  | .num n => n.toNat?.bind fun n => if min ≤ n ∧ n ≤ max then some n else none
  | _ => none

def parseWebhookReplay (raw : Json) (name : Text) : Except Thrown WebhookReplay := do
  let here : Text := "kody.webhooks[" ++ name ++ "].replay"
  let raw ← match raw with
    | .obj members => .ok members
    | _ => .error (invalidManifest (here ++ " must be an object."))
  let timestamp ← match Json.member raw "timestampHeader" with
    | none => .ok none
    | some header => do
      let header ← headerName (some header) (here ++ ".timestampHeader must be a header name.")
      let format := Json.orElse (Json.member raw "timestampFormat") (.str "unix-seconds")
      if !(timestampFormats.any fun t => printsAs t format) then
        throw (invalidManifest (here ++ ".timestampFormat is invalid."))
      let tolerance ← match integerBetween 1 86400
          (Json.orElse (Json.member raw "toleranceSeconds") (.num (.fin 300))) with
        | some n => .ok n
        | none => .error (invalidManifest (here ++
            ".toleranceSeconds must be an integer between 1 and 86400."))
      .ok (some (header, format, tolerance))
  let deliveryId ← match Json.member raw "deliveryIdHeader" with
    | none => .ok none
    | some header => do
      let header ← headerName (some header) (here ++ ".deliveryIdHeader must be a header name.")
      .ok (some header)
  if timestamp.isNone && deliveryId.isNone then
    throw (invalidManifest (here ++ " needs timestampHeader and/or deliveryIdHeader."))
  return { timestampHeader := timestamp.map fun t => t.1
           timestampFormat := timestamp.map fun t => t.2.1
           toleranceSeconds := timestamp.map fun t => t.2.2
           deliveryIdHeader := deliveryId }

/-- `exports[name]`; `none` for `undefined`. -/
def exportEntry (exports : Obj Text) (name : Text) : Option ExportEntry :=
  match exports.get? name with
  | some path => some (.path path)
  | none => if name ∈ objectPrototype then some (.inherited name) else none

def parseWebhook (exports : Obj Text) (seen : List Text) (raw : Json) :
    Except Thrown WebhookDefinition := do
  let (item, name) ← match raw with
    | .obj item =>
      match Json.text? (Json.member item "name") with
      | some name => .ok (item, name)
      | none => .error (invalidManifest "Each kody.webhooks entry needs a string name.")
    | _ => .error (invalidManifest "Each kody.webhooks entry needs a string name.")
  let here : Text := "kody.webhooks[" ++ name ++ "]"
  if !webhookNamePattern name || decide (64 < name.length) then
    throw (invalidManifest ("Webhook name \"" ++ name ++ "\" must be a lowercase slug."))
  if name ∈ seen then
    throw (invalidManifest ("Webhook name \"" ++ name ++ "\" is declared twice."))
  let declared ← match Json.text? (Json.member item "export") with
    | some s =>
      if s = "*" then .error (invalidManifest (here ++ ".export must name one declared export."))
      else .ok s
    | none => .error (invalidManifest (here ++ ".export must name one declared export."))
  let exportName := if declared = "." then declared else dropDotSlash declared
  let entry ← match exportEntry exports exportName with
    | some entry => .ok entry
    | none => .error (invalidManifest (here ++ ".export \"" ++ declared ++
        "\" is not in package.json#exports."))
  let responseMode ←
    match Json.text? (some (Json.orElse (Json.member item "responseMode") (.str "ack"))) with
    | some s =>
      if s = "ack" then .ok ResponseMode.ack
      else if s = "sync" then .ok .sync
      else .error (invalidManifest (here ++ ".responseMode must be \"ack\" or \"sync\"."))
    | none => .error (invalidManifest (here ++ ".responseMode must be \"ack\" or \"sync\"."))
  let inputMode ←
    match Json.text? (some (Json.orElse (Json.member item "inputMode") (.str "request"))) with
    | some s =>
      if s = "request" then .ok InputMode.request
      else if s = "params" then .ok .params
      else .error (invalidManifest (here ++ ".inputMode must be \"request\" or \"params\"."))
    | none => .error (invalidManifest (here ++ ".inputMode must be \"request\" or \"params\"."))
  let rate ← match integerBetween 1 webhookMaxRateLimit (Json.orElse
      (Json.member item "rateLimitPerMinute") (.num (.fin webhookDefaultRateLimit))) with
    | some rate => .ok rate
    | none => .error (invalidManifest (here ++
        ".rateLimitPerMinute must be an integer between 1 and " ++ natText webhookMaxRateLimit ++
        "."))
  let verification ← match Json.member item "verification" with
    | none => .ok none
    | some raw => do
      let verification ← parseWebhookVerification raw name
      .ok (some verification)
  let replay ← match Json.member item "replay" with
    | none => .ok none
    | some raw => do
      let replay ← parseWebhookReplay raw name
      .ok (some replay)
  if verification.map (fun v => v.signedPayload) = some .timestampBody ∧
      (replay.bind fun r => r.timestampHeader) = none then
    throw (invalidManifest (here ++
      ": signedPayload \"timestamp.body\" needs replay.timestampHeader."))
  return { name := name, exportName := exportName, entry := entry, responseMode := responseMode,
           inputMode := inputMode, rateLimitPerMinute := rate, verification := verification,
           replay := replay, description := Json.text? (Json.member item "description") }

/-- The loop of `parseWebhooks`, with the webhooks read so far. -/
def parseWebhookItems (exports : Obj Text) :
    (webhooks : List WebhookDefinition) → List Json → Except Thrown (List WebhookDefinition)
  | webhooks, [] => .ok webhooks
  | webhooks, item :: items =>
    match parseWebhook exports (webhooks.map WebhookDefinition.name) item with
    | .error e => .error e
    | .ok webhook => parseWebhookItems exports (webhooks ++ [webhook]) items

def parseWebhooks (raw : Option Json) (exports : Obj Text) :
    Except Thrown (List WebhookDefinition) :=
  match raw with
  | none => .ok []
  | some (.arr items) => parseWebhookItems exports [] items
  | some _ => .error (invalidManifest "kody.webhooks must be an array.")

/-- The elements of a list, separated by commas and blanks. -/
def commaSeparated (items : List Text) : Text := ([',', ' '] : Text).intercalate items

def parseSubscription (files : PackageFiles) (topic : Text) (raw : Json) :
    Except Thrown SubscriptionDefinition := do
  if topic ∉ subscriptionTopics then
    throw (invalidManifest ("kody.subscriptions[\"" ++ topic ++ "\"]: unknown topic. Supported: " ++
      commaSeparated subscriptionTopics ++ "."))
  let required := invalidManifest ("kody.subscriptions[\"" ++ topic ++ "\"].handler is required.")
  let item ← match raw with
    | .obj item => .ok item
    | _ => .error required
  let handler ← match Json.text? (Json.member item "handler") with
    | some handler => normalizeModulePath handler
    | none => .error required
  if !files.hasProperty handler then
    throw (invalidManifest ("kody.subscriptions[\"" ++ topic ++ "\"].handler \"" ++ handler ++
      "\" is not in the package files."))
  return { topic := topic, handler := handler,
           description := Json.text? (Json.member item "description") }

def parseSubscriptions (raw : Option Json) (files : PackageFiles) :
    Except Thrown (List SubscriptionDefinition) :=
  match raw with
  | none => .ok []
  | some (.obj topics) => topics.mapM fun t => parseSubscription files t.1 t.2
  | some _ => .error (invalidManifest "kody.subscriptions must be an object keyed by topic.")

def parseSecretProvider (raw : Option Json) (exports : Obj Text) :
    Except Thrown (Option SecretProviderDefinition) :=
  let malformed := invalidManifest "kody.secretProvider must be an object with a string \"id\"."
  match raw with
  | none => .ok none
  | some (.obj members) =>
    match Json.text? (Json.member members "id") with
    | none => .error malformed
    | some id =>
      if !secretProviderIdPattern id then
        .error (invalidManifest ("kody.secretProvider.id \"" ++ id ++
          "\" is invalid (lowercase letters, digits, \".\", \"_\", \"-\")."))
      else match exports.get? secretProviderExportName with
        | none => .error (invalidManifest ("kody.secretProvider requires an \"./" ++
            secretProviderExportName ++ "\" export in package.json#exports."))
        | some entry => .ok (some { id := id, entry := entry,
                                    description := Json.text? (Json.member members "description") })
  | some _ => .error malformed

/-- `/^(?:__version\.json|client\.[0-9a-f]{16}\.js)$/` -/
def reservedAssetRoot (path : Text) : Bool :=
  decide (path = "__version.json") ||
    match stripWord? "client." path with
    | none => false
    | some rest =>
      decide (rest.length = 19) && endsWith rest ".js" &&
        (rest.take 16).all fun c => isDigit c || ('a' ≤ c && c ≤ 'f')

def parseAppAssets (raw : Json) (files : PackageFiles) : Except Thrown Text := do
  let assets ← match raw with
    | .str s => normalizeModulePath s
    | _ => .error (invalidManifest "kody.app.assets must be a directory path.")
  let root := assets ++ ['/']
  let inside := files.keys.filter fun path => startsWith path root
  if inside = [] then
    throw (invalidManifest ("kody.app.assets \"" ++ assets ++ "\" has no files."))
  match inside.find? fun path => reservedAssetRoot (path.drop root.length) with
  | some reserved => throw (invalidManifest ("kody.app.assets: \"" ++ reserved ++
      "\" uses a reserved root name (__version.json, client.<hash>.js); nest or rename it."))
  | none => return assets

/-- `kody.app.client`: a path or `{ entry }`. -/
def parseAppClient (raw : Json) (files : PackageFiles) : Except Thrown Unit := do
  let clientEntry ← match raw with
    | .str s => .ok s
    | .obj members =>
      match Json.text? (Json.member members "entry") with
      | some s => .ok s
      | none => .error (invalidManifest "kody.app.client must be a path or \x7b entry \x7d.")
    | _ => .error (invalidManifest "kody.app.client must be a path or \x7b entry \x7d.")
  let normalized ← normalizeModulePath clientEntry
  if !files.hasProperty normalized then
    throw (invalidManifest ("kody.app.client \"" ++ normalized ++
      "\" is not in the package files."))

def parseApp (raw : Option Json) (files : PackageFiles) : Except Thrown (Option AppDefinition) := do
  match raw with
  | none => return none
  | some (.obj raw) =>
    if (Json.member raw "runtime").isSome then
      throw (invalidManifest ("kody.app.runtime is not supported; kody.app.entry " ++
        "default-exports a fetch handler."))
    let entry ← match Json.text? (Json.member raw "entry") with
      | some entry => normalizeModulePath entry
      | none => .error (invalidManifest "kody.app.entry is required.")
    if !files.hasProperty entry then
      throw (invalidManifest ("kody.app.entry \"" ++ entry ++ "\" is not in the package files."))
    if !isCodeModulePath entry then
      throw (invalidManifest ("kody.app.entry \"" ++ entry ++
        "\" is not a JavaScript or TypeScript module."))
    let assets ← match Json.member raw "assets" with
      | none => .ok none
      | some raw => do
        let assets ← parseAppAssets raw files
        .ok (some assets)
    match Json.member raw "client" with
    | none => return some { entry := entry, assets := assets, client := false }
    | some raw =>
      parseAppClient raw files
      return some { entry := entry, assets := assets, client := true }
  | some _ => throw (invalidManifest "kody.app must be an object with an \"entry\".")

/-- Non-fatal notes returned by `packageSave`. -/
def manifestWarnings (manifest : PackageManifest) : List Text :=
  match manifest.app with
  | some app =>
    if app.client then
      ["kody.app.client is not built on kody-celld yet; the app is served server-rendered only."]
    else []
  | none => []

/-! ### Exports, jobs and dependencies -/

/-- `exports[key] = normalizeModulePath(value)` for each member. -/
def parseExportMembers : (exports : Obj Text) → List (Text × Json) → Except Thrown (Obj Text)
  | exports, [] => .ok exports
  | exports, (key, .str value) :: rest =>
    match normalizeModulePath value with
    | .error e => .error e
    | .ok path =>
      parseExportMembers (exports.set (if key = "." then key else dropDotSlash key) path) rest
  | _, (key, _) :: _ =>
    .error (invalidManifest ("exports[\"" ++ key ++ "\"] must be a module path string."))

/-- `json.exports`, or `json.main` as the default export. -/
def parseExports (json : List (Text × Json)) : Except Thrown (Obj Text) :=
  match Json.member json "exports" with
  | some (.str path) => (normalizeModulePath path).map fun path => Obj.empty.set "." path
  | some (.obj members) => parseExportMembers Obj.empty members
  | _ =>
    match Json.text? (Json.member json "main") with
    | some path => (normalizeModulePath path).map fun path => Obj.empty.set "." path
    | none => .ok Obj.empty

def parseJob (files : PackageFiles) (jobName : Text) (raw : Json) : Except Thrown JobDefinition := do
  if !jobNamePattern jobName then
    throw (invalidManifest ("Job name \"" ++ jobName ++ "\" is invalid."))
  let required := invalidManifest ("kody.jobs." ++ jobName ++ ".entry is required.")
  let raw ← match raw with
    | .obj members => .ok members
    | _ => .error required
  let entry ← match Json.text? (Json.member raw "entry") with
    | some entry => normalizeModulePath entry
    | none => .error required
  if !files.hasProperty entry then
    throw (invalidManifest ("kody.jobs." ++ jobName ++ ".entry \"" ++ entry ++
      "\" is not in the package files."))
  let schedule ← parseSchedule (Json.member raw "schedule") jobName
  return { entry := entry, schedule := schedule
           timezone := Json.text? (Json.member raw "timezone")
           enabled := match Json.member raw "enabled" with
             | some (.bool b) => some b
             | _ => none
           description := Json.text? (Json.member raw "description") }

def parseJobMembers (files : PackageFiles) :
    (jobs : Obj JobDefinition) → List (Text × Json) → Except Thrown (Obj JobDefinition)
  | jobs, [] => .ok jobs
  | jobs, (jobName, raw) :: rest =>
    match parseJob files jobName raw with
    | .error e => .error e
    | .ok job => parseJobMembers files (jobs.set jobName job) rest

def parseJobs (raw : Option Json) (files : PackageFiles) : Except Thrown (Obj JobDefinition) :=
  match raw with
  | none => .ok Obj.empty
  | some (.obj members) => parseJobMembers files Obj.empty members
  | some _ => .error (invalidManifest "kody.jobs must be an object keyed by job name.")

def parseDependencyMembers : (dependencies : Obj Text) → List (Text × Json) → Except Thrown (Obj Text)
  | dependencies, [] => .ok dependencies
  | dependencies, (dep, range) :: rest =>
    match Json.text? (some range) with
    | some range =>
      if packageNamePattern dep then parseDependencyMembers (dependencies.set dep range) rest
      else .error (invalidManifest ("kody.dependencies[\"" ++ dep ++ "\"] is invalid."))
    | none => .error (invalidManifest ("kody.dependencies[\"" ++ dep ++ "\"] is invalid."))

def parseDependencies (raw : Option Json) : Except Thrown (Obj Text) :=
  match raw with
  | some (.obj members) => parseDependencyMembers Obj.empty members
  | _ => .ok Obj.empty

/-! ### The import check -/

section
variable (tools : Toolchain)

/-- A file as its imports are read: compiled where it is TypeScript or JSX; `none` for one that
    does not compile. -/
def importSource (path source : Text) (jsx : JsxOptions) : Option Text :=
  match transpileKind path with
  | none => some source
  | some kind => (stripTypes tools source path kind jsx).toOption

/-- `path.slice(0, path.lastIndexOf('/'))`; empty without a slash. -/
def dirname (path : Text) : Text :=
  ((path.reverse.dropWhile (· ≠ '/')).drop 1).reverse

/-- `base ? base/specifier : specifier`, normalised. -/
def resolveFrom (base specifier : Text) : Except Thrown Text :=
  normalizeModulePath (if base = [] then specifier else base ++ '/' :: specifier)

def isRelative (specifier : Text) : Bool :=
  startsWith specifier "./" || startsWith specifier "../" || startsWith specifier "/"

/-- What one static relative import of `path` resolves to among the modules `known`. -/
def resolveStatic (known : List Text) (path specifier : Text) : Except Thrown Text :=
  match resolveFrom (dirname path) specifier with
  | .error _ => .error (.kody "invalid_import" ("Cannot resolve \"" ++ specifier ++ "\" from " ++
      path ++ ": it points outside the package."))
  | .ok target =>
    match (relativeImportCandidates target).find? (· ∈ known) with
    | some found => .ok found
    | none => .error (.kody "invalid_import" ("Cannot resolve \"" ++ specifier ++ "\" from " ++
        path ++ ": no such file in the package."))

/-- The map `sources`: the modules of the package under their normalised paths. -/
def moduleSources (files : PackageFiles) : Except Thrown (List (Text × Text)) :=
  (files.entries.filter fun f => isCodeModulePath f.1 || endsWith f.1 ".json").foldlM
    (fun sources f => (normalizeModulePath f.1).map fun path => defineEntry path f.2 sources) []

/-- The modules one reached module imports. -/
def staticImports (sources : List (Text × Text)) (jsx : JsxOptions) (path : Text) :
    Except Thrown (List Text) :=
  match (sources.find? fun s => s.1 = path).map Prod.snd with
  | none => .ok []
  | some source =>
    if endsWith path ".json" then .ok []
    else match importSource tools path source jsx with
      | none => .ok []
      | some compiled =>
        match lexImportSpecifiers tools compiled path with
        | .error e => .error e
        | .ok ranges =>
          (ranges.filter fun r => r.kind = .static ∧ r.typeOnly = false ∧ isRelative r.specifier).mapM
            fun r => resolveStatic (sources.map Prod.fst) path r.specifier

/-- Each path the walk visits is an entry or a module, so their number is enough fuel. -/
def assertRelativeImportsResolve (files : PackageFiles) (entries : List Text) : Except Thrown Unit :=
  let jsx := jsxOptionsFromFiles tools files
  match moduleSources files with
  | .error e => .error e
  | .ok sources =>
    match walkPaths (staticImports tools sources jsx) (entries.length + sources.length) entries [] with
    | .error e => .error e
    | .ok _ => .ok ()

/-! ### The manifest -/

/-- The entry points whose imports are checked. -/
def entryPoints (exports : Obj Text) (jobs : Obj JobDefinition)
    (subscriptions : List SubscriptionDefinition) (app : Option AppDefinition) : List Text :=
  exports.entries.map Prod.snd ++ jobs.entries.map (fun j => j.2.entry) ++
    subscriptions.map (fun s => s.handler) ++ app.toList.map (fun a => a.entry)

/-- `files[name]?.trim() ?? ''`, under the message of a missing document. -/
def requireDocument (files : PackageFiles) (name : Text) : Except Thrown Unit :=
  if trim ((files.get? name).getD []) = [] then
    .error (invalidManifest ("A non-empty " ++ name ++ " is required."))
  else .ok ()

def parsePackageManifest (files : PackageFiles) : Except Thrown PackageManifest := do
  let source := (files.get? "package.json").getD []
  if source = [] then throw (invalidManifest "package.json is required.")
  let json ← match jsonParse source with
    | some (.obj json) => .ok json
    | some _ => .error (invalidManifest "package.json must be an object.")
    | none => .error (invalidManifest ("package.json is not valid JSON: " ++
        tools.jsonSyntaxError source))
  let badName := invalidManifest
    "package.json#name must be an npm-style package name (optionally scoped)."
  let name ← match Json.text? (Json.member json "name") with
    | some name => if packageNamePattern name then .ok name else .error badName
    | none => .error badName
  let kody := (Json.record? (Json.member json "kody")).getD []
  let exports ← parseExports json
  match exports.entries.find? fun e => !files.hasProperty e.2 with
  | some (exportName, path) => throw (invalidManifest ("exports[\"" ++ exportName ++
      "\"] points to \"" ++ path ++ "\" which is not in the package files."))
  | none => pure ()
  let jobs ← parseJobs (Json.member kody "jobs") files
  let dependencies ← parseDependencies (Json.member kody "dependencies")
  requireDocument files "README.md"
  requireDocument files "AGENTS.md"
  let webhooks ← parseWebhooks (Json.member kody "webhooks") exports
  let subscriptions ← parseSubscriptions (Json.member kody "subscriptions") files
  let secretProvider ← parseSecretProvider (Json.member kody "secretProvider") exports
  let app ← parseApp (Json.member kody "app") files
  assertRelativeImportsResolve tools files (entryPoints exports jobs subscriptions app)
  return { name := name
           version := (Json.text? (Json.member json "version")).getD "0.0.0"
           description := ((Json.text? (Json.member kody "description")).orElse fun _ =>
             Json.text? (Json.member json "description")).getD []
           exports := exports, jobs := jobs, webhooks := webhooks
           subscriptions := subscriptions, secretProvider := secretProvider, app := app
           dependencies := dependencies
           hidden := match Json.member kody "hidden" with
             | some (.bool b) => b
             | _ => false
           keywords := match Json.member json "keywords" with
             | some (.arr items) => items.filterMap fun j => Json.text? (some j)
             | _ => [] }

end

/-! ### What was accepted -/

/-- A provider id that was accepted is well formed. -/
theorem parseSecretProvider_id {raw : Option Json} {exports : Obj Text}
    {provider : SecretProviderDefinition}
    (h : parseSecretProvider raw exports = .ok (some provider)) :
    secretProviderIdPattern provider.id = true := by
  unfold parseSecretProvider at h
  split at h
  · exact absurd h (by simp)
  · split at h
    · exact absurd h (by simp)
    · rename_i id _
      split at h
      · exact absurd h (by simp)
      rename_i hid
      split at h
      · exact absurd h (by simp)
      rw [← Option.some.inj (Except.ok.inj h)]
      simpa using hid
  · exact absurd h (by simp)

/-- The members of `kody` in `package.json`. -/
def kodyMembers (json : List (Text × Json)) : List (Text × Json) :=
  (Json.record? (Json.member json "kody")).getD []

/-- The sections of an accepted manifest, each from what `package.json` says about it. -/
structure ParsedFrom (files : PackageFiles) (json : List (Text × Json))
    (manifest : PackageManifest) : Prop where
  read : jsonParse ((files.get? "package.json").getD []) = some (.obj json)
  name : packageNamePattern manifest.name = true
  exports : parseExports json = .ok manifest.exports
  found : ∀ e ∈ manifest.exports.entries, files.hasProperty e.2 = true
  jobs : parseJobs (Json.member (kodyMembers json) "jobs") files = .ok manifest.jobs
  webhooks : parseWebhooks (Json.member (kodyMembers json) "webhooks") manifest.exports =
    .ok manifest.webhooks
  subscriptions : parseSubscriptions (Json.member (kodyMembers json) "subscriptions") files =
    .ok manifest.subscriptions
  secretProvider : parseSecretProvider (Json.member (kodyMembers json) "secretProvider")
    manifest.exports = .ok manifest.secretProvider
  app : parseApp (Json.member (kodyMembers json) "app") files = .ok manifest.app

/-- **What an accepted manifest has gone through**, section by section. -/
theorem parsePackageManifest_parts {tools : Toolchain} {files : PackageFiles}
    {manifest : PackageManifest} (h : parsePackageManifest tools files = .ok manifest) :
    ∃ json, ParsedFrom files json manifest := by
  unfold parsePackageManifest at h
  extract_lets source badName afterJson afterSource at h
  have hjson : ∃ json, jsonParse source = some (.obj json) ∧ afterJson json = .ok manifest := by
    split at h
    · obtain ⟨_, hbad, -⟩ := bind_eq_ok h
      cases hbad
    · unfold afterSource at h
      split at h
      · rename_i hparse
        exact ⟨_, hparse, h⟩
      · obtain ⟨_, hbad, -⟩ := bind_eq_ok h
        cases hbad
      · obtain ⟨_, hbad, -⟩ := bind_eq_ok h
        cases hbad
  obtain ⟨json, hparse, h⟩ := hjson
  unfold afterJson at h
  extract_lets kody afterName at h
  have hname : ∃ name, packageNamePattern name = true ∧ afterName name = .ok manifest := by
    split at h
    · split at h
      · rename_i hpattern
        exact ⟨_, hpattern, h⟩
      · obtain ⟨_, hbad, -⟩ := bind_eq_ok h
        cases hbad
    · obtain ⟨_, hbad, -⟩ := bind_eq_ok h
      cases hbad
  obtain ⟨name, hpattern, h⟩ := hname
  unfold afterName at h
  obtain ⟨exports, hexports, h⟩ := bind_eq_ok h
  extract_lets afterExports at h
  have hfound : (∀ e ∈ exports.entries, files.hasProperty e.2 = true) ∧
      afterExports () = .ok manifest := by
    split at h
    · obtain ⟨_, hbad, -⟩ := bind_eq_ok h
      cases hbad
    · rename_i hnone
      refine ⟨fun e he => ?_, h⟩
      simpa using List.find?_eq_none.mp hnone e he
  obtain ⟨hfound, h⟩ := hfound
  obtain ⟨jobs, hjobs, h⟩ := bind_eq_ok h
  obtain ⟨dependencies, -, h⟩ := bind_eq_ok h
  obtain ⟨-, -, h⟩ := bind_eq_ok h
  obtain ⟨-, -, h⟩ := bind_eq_ok h
  obtain ⟨webhooks, hwebhooks, h⟩ := bind_eq_ok h
  obtain ⟨subscriptions, hsubscriptions, h⟩ := bind_eq_ok h
  obtain ⟨parsed, hparsed, h⟩ := bind_eq_ok h
  obtain ⟨app, happ, h⟩ := bind_eq_ok h
  obtain ⟨-, -, h⟩ := bind_eq_ok h
  rw [← Except.ok.inj h]
  exact ⟨json, hparse, hpattern, hexports, hfound, hjobs, hwebhooks, hsubscriptions, hparsed, happ⟩

/-- The name of an accepted manifest is an npm name, and its provider was parsed. -/
theorem parsePackageManifest_accepted {tools : Toolchain} {files : PackageFiles}
    {manifest : PackageManifest} (h : parsePackageManifest tools files = .ok manifest) :
    packageNamePattern manifest.name = true ∧
      ∃ raw exports, parseSecretProvider raw exports = .ok manifest.secretProvider := by
  obtain ⟨json, hparts⟩ := parsePackageManifest_parts h
  exact ⟨hparts.name, _, _, hparts.secretProvider⟩

/-- The provider id that a manifest declares is well formed. -/
theorem parsePackageManifest_providerId {tools : Toolchain} {files : PackageFiles}
    {manifest : PackageManifest} {provider : SecretProviderDefinition}
    (h : parsePackageManifest tools files = .ok manifest)
    (hprovider : manifest.secretProvider = some provider) :
    secretProviderIdPattern provider.id = true := by
  obtain ⟨-, _, _, hparsed⟩ := parsePackageManifest_accepted h
  rw [hprovider] at hparsed
  exact parseSecretProvider_id hparsed

theorem isNameChar_of_isLowerAlnum {c : Char} (h : isLowerAlnum c = true) : isNameChar c = true := by
  unfold isNameChar
  rw [h]
  rfl

theorem isNameChar_of_plainName {name : Text} (h : isPlainName name = true) {c : Char}
    (hc : c ∈ name) : isNameChar c = true := by
  cases name with
  | nil => cases hc
  | cons first rest =>
    rw [isPlainName, Bool.and_eq_true] at h
    rcases List.mem_cons.mp hc with rfl | hrest
    · exact isNameChar_of_isLowerAlnum h.1
    · exact List.all_eq_true.mp h.2 c hrest

/-- The characters of a package name: those of npm names, `@` and `/`. -/
theorem packageNamePattern_chars {name : Text} (h : packageNamePattern name = true) {c : Char}
    (hc : c ∈ name) : isNameChar c = true ∨ c = '@' ∨ c = '/' := by
  unfold packageNamePattern at h
  split at h
  · rename_i body
    split at h
    · rename_i rest hdrop
      rw [Bool.and_eq_true] at h
      rcases List.mem_cons.mp hc with rfl | hbody
      · exact .inr (.inl rfl)
      · have hsplit := @List.takeWhile_append_dropWhile _ isNameChar body
        rw [hdrop] at hsplit
        rw [← hsplit] at hbody
        rcases List.mem_append.mp hbody with hscope | hrest
        · exact .inl (isNameChar_of_plainName h.1 hscope)
        · rcases List.mem_cons.mp hrest with rfl | hrest
          · exact .inr (.inr rfl)
          · exact .inl (isNameChar_of_plainName h.2 hrest)
    · cases h
  · exact .inl (isNameChar_of_plainName h hc)

/-! ### `JSON.stringify(manifest)` -/

def scheduleJson : JobSchedule → Text
  | .cron expression => jsonObject [("type", jsonString "cron"), ("expression", jsonString expression)]
  | .interval every => jsonObject [("type", jsonString "interval"), ("every", jsonString every)]
  | .once runAt => jsonObject [("type", jsonString "once"), ("runAt", jsonString runAt)]

def jobJson (job : JobDefinition) : Text :=
  jsonObject (jsonMember "entry" (jsonString job.entry) ++
    jsonMember "schedule" (scheduleJson job.schedule) ++
    optionalMember "timezone" (job.timezone.map jsonString) ++
    optionalMember "enabled" (job.enabled.map jsonBool) ++
    optionalMember "description" (job.description.map jsonString))

/-- A timestamp format: a text, or the arrays around it. -/
def formatJson : Json → Text
  | .str s => jsonString s
  | .arr [j] => jsonArray [formatJson j]
  | _ => "null"

/-- An inherited function is left out; the prototype itself prints as an empty object. -/
def exportEntryJson : ExportEntry → Option Text
  | .path file => some (jsonString file)
  | .inherited key => if key = "__proto__" then some (jsonObject []) else none

def verificationJson (v : WebhookVerification) : Text :=
  jsonObject (jsonMember "type" (jsonString "hmac-sha256") ++
    jsonMember "header" (jsonString v.header) ++
    jsonMember "secretName" (jsonString v.secretName) ++
    jsonMember "encoding" (jsonString (if v.encoding = .hex then "hex" else "base64")) ++
    jsonMember "signedPayload"
      (jsonString (if v.signedPayload = .body then "body" else "timestamp.body")) ++
    optionalMember "prefix" (v.signaturePrefix.map jsonString))

def replayJson (r : WebhookReplay) : Text :=
  jsonObject (optionalMember "timestampHeader" (r.timestampHeader.map jsonString) ++
    optionalMember "timestampFormat" (r.timestampFormat.map formatJson) ++
    optionalMember "toleranceSeconds" (r.toleranceSeconds.map natText) ++
    optionalMember "deliveryIdHeader" (r.deliveryIdHeader.map jsonString))

def webhookJson (hook : WebhookDefinition) : Text :=
  jsonObject (jsonMember "name" (jsonString hook.name) ++
    jsonMember "export" (jsonString hook.exportName) ++
    optionalMember "entry" (exportEntryJson hook.entry) ++
    jsonMember "responseMode" (jsonString (if hook.responseMode = .ack then "ack" else "sync")) ++
    jsonMember "inputMode" (jsonString (if hook.inputMode = .request then "request" else "params")) ++
    jsonMember "rateLimitPerMinute" (natText hook.rateLimitPerMinute) ++
    optionalMember "verification" (hook.verification.map verificationJson) ++
    optionalMember "replay" (hook.replay.map replayJson) ++
    optionalMember "description" (hook.description.map jsonString))

def subscriptionJson (s : SubscriptionDefinition) : Text :=
  jsonObject (jsonMember "topic" (jsonString s.topic) ++
    jsonMember "handler" (jsonString s.handler) ++
    optionalMember "description" (s.description.map jsonString))

def secretProviderJson : Option SecretProviderDefinition → Text
  | none => "null"
  | some p => jsonObject (jsonMember "id" (jsonString p.id) ++
      jsonMember "entry" (jsonString p.entry) ++
      optionalMember "description" (p.description.map jsonString))

def appJson : Option AppDefinition → Text
  | none => "null"
  | some app => jsonObject [("entry", jsonString app.entry),
      ("assets", (app.assets.map jsonString).getD "null"), ("client", jsonBool app.client)]

def textsJson (o : Obj Text) : Text := jsonObject (o.entries.map fun e => (e.1, jsonString e.2))

def manifestJson (m : PackageManifest) : Text :=
  jsonObject [("name", jsonString m.name), ("version", jsonString m.version),
    ("description", jsonString m.description), ("exports", textsJson m.exports),
    ("jobs", jsonObject (m.jobs.entries.map fun j => (j.1, jobJson j.2))),
    ("webhooks", jsonArray (m.webhooks.map webhookJson)),
    ("subscriptions", jsonArray (m.subscriptions.map subscriptionJson)),
    ("secretProvider", secretProviderJson m.secretProvider), ("app", appJson m.app),
    ("dependencies", textsJson m.dependencies), ("hidden", jsonBool m.hidden),
    ("keywords", jsonArray (m.keywords.map jsonString))]

end KodyCelld.Packages
