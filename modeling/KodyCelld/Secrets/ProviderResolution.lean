import KodyCelld.Cells.PackageSave
import KodyCelld.Lib.Machine
import KodyCelld.Secrets.HostPolicy

namespace KodyCelld.Secrets

open KodyCelld.Lib KodyCelld.Execute KodyCelld.Packages KodyCelld.Cells

/-!
# Provider-backed secrets (`secrets/fetch-gateway.ts`, `cells/user-cell.ts`)

For each `secret/<provider>:<ref>` placeholder of a request the gateway asks the user cell whether the
caller may have the ref, runs the bound package when no value is cached, caches what it reported,
asks again about the canonical ref, and puts the value into the request.

* `secretProviderAuthorize` — the check, on the ref or on the canonical ref it is known to have;
* `piece` — one piece of a call, up to its next `await` or its return;
* `providers` — the calls as a cooperative system: resolutions, and what changes bindings, grants
  and packages.

Beside the cell, the state counts the changes of each provider that have returned, keeps for each
key of the cache the report it came from, and lists what was served from the cache and what was
injected; nothing the source computes depends on these.
-/

/-- What the gateway is given: the platform under the cell, `KODY_SECRET_PROVIDER_CACHE_SECONDS`,
    `new URL(text).hostname` (`none` where it throws) and `text.toLowerCase()`. -/
structure Gateway where
  host : Host
  cacheSeconds : Option Text
  urlHostname : Text → Option Text
  toLowerCase : Text → Text

def positiveInt (raw : Option Text) (fallback : ℕ) : ℕ :=
  (raw.bind fun raw => (numberOf raw).toNat?).getD fallback

/-- `providerCacheTtlMs` -/
def Gateway.cacheTtlMs (g : Gateway) : ℕ := positiveInt g.cacheSeconds 300 * 1000

/-! ### What a provider reports -/

/-- The host of one entry of `hosts`; `none` where the source skips it. -/
def providerHost (g : Gateway) : Json → Option Text
  | .str entry =>
    let candidate := g.toLowerCase (trim entry)
    if candidate = [] then none
    else
      let hostname :=
        if (indexOf? "://" candidate).isSome then g.urlHostname candidate
        else if '/' ∈ candidate then some ((candidate.splitOn '/').headD [])
        else some candidate
      hostname.bind fun hostname => (normalizeSecretHost g.toLowerCase hostname).toOption
  | _ => none

/-- The loop of `normalizeProviderHosts`, with the hosts collected so far; it ends at 32 of them. -/
def collectHosts (g : Gateway) : List Text → List Json → List Text
  | hosts, [] => hosts
  | hosts, entry :: rest =>
    match providerHost g entry with
    | none => collectHosts g hosts rest
    | some host =>
      let hosts := if host ∈ hosts then hosts else hosts ++ [host]
      if 32 ≤ hosts.length then hosts else collectHosts g hosts rest

def normalizeProviderHosts (g : Gateway) : Option Json → List Text
  | some (.arr items) => collectHosts g [] items
  | _ => []

structure ProviderResult where
  value : Text
  hosts : List Text
  canonicalRef : Option Text

def parseProviderResult (g : Gateway) : Json → Option ProviderResult
  | .obj record =>
    match Json.text? (Json.member record "value") with
    | none => none
    | some value =>
      some {
        value := value
        hosts := normalizeProviderHosts g (Json.member record "hosts")
        canonicalRef := (Json.text? (Json.member record "canonicalRef")).bind fun ref =>
          if trim ref ≠ [] ∧ !ref.any (fun c => isSpace c || c == '\x7b' || c == '\x7d') then
            some (trim ref)
          else none }
  | _ => none

/-- How a sealed run of the provider package ended. -/
inductive RunOutcome where
  | failed (name message : Option Text) (runId : Text)
  | ok (result : Json) (runId : Text)

/-! ### Requests -/

structure ReferencedProviderSecret where
  placeholder : Text
  provider : Text
  ref : Text
  deriving DecidableEq, Repr

/-- A request with provider placeholders, of a package or (`none`) of ad hoc code; its host, and
    whether an admin approved it. -/
structure ProviderRequest where
  packageName : Option Text
  host : Text
  hostApproved : Bool
  placeholders : List ReferencedProviderSecret
  deriving DecidableEq, Repr

/-- The refs of the placeholders, each once, in the order in which they first occur. -/
def dedupeProviderRefs (list : List ReferencedProviderSecret) : List (Text × Text) :=
  (list.foldl (fun (seen, out) p =>
    let key := SecretProviderStore.cacheKey p.provider p.ref
    if key ∈ seen then (seen, out) else (key :: seen, out ++ [(p.provider, p.ref)]))
    (([], []) : List Text × List (Text × Text))).2

/-- Why a request does not leave. -/
structure Denial where
  status : ℕ
  code : Text
  message : Text
  details : List (Text × Json)

/-! ### The check -/

structure Authorized where
  binding : SecretProviderBinding
  cached : Option CachedProviderValue
  provisional : Bool

/-- Whether the caller may have the ref: judged on the canonical ref of what is cached for it, or on
    the ref itself.  A package with some grant of the provider may ask for one that is not cached. -/
def secretProviderAuthorize (store : SecretProviderStore) (now : ℕ) (providerId ref : Text)
    (packageName : Option Text) (strict : Bool) : Except Denial Authorized × SecretProviderStore :=
  match store.get providerId with
  | none =>
    (.error ⟨404, "secret_provider_not_bound", "No secret provider is bound as \"" ++ providerId ++
      "\". Bind one with secretProviderBind.", []⟩, store)
  | some binding =>
    let (cached, store) := store.cacheGet now providerId ref
    let canonicalRef := (cached.map CachedProviderValue.canonicalRef).getD ref
    if store.permits binding canonicalRef packageName then (.ok ⟨binding, cached, false⟩, store)
    else
      let provisional := !strict && cached.isNone && packageName.isSome &&
        store.grants.rows.any fun g =>
          decide (g.providerId = providerId ∧ some g.packageName = packageName)
      if provisional then (.ok ⟨binding, none, true⟩, store)
      else
        let who : Text := match packageName with
          | some (c :: cs) => "package \"" ++ c :: cs ++ "\" has no grant for"
          | _ => "ad hoc code may not use"
        (.error ⟨403, "secret_provider_not_granted", "Provider \"" ++ providerId ++ "\" is locked; " ++
          who ++ " ref \"" ++ ref ++ "\". Grant it with secretProviderGrant.", []⟩, store)

/-! ### The state -/

/-- What a provider run reported, and how many changes of its provider had returned when it
    started. -/
structure Report where
  providerId : Text
  ref : Text
  value : Text
  canonicalRef : Text
  startedAt : ℕ
  deriving DecidableEq

/-- A value served from the cache, the report it came from, and how many changes of the provider had
    returned by then. -/
structure Serving where
  providerId : Text
  value : Text
  report : Option Report
  changes : ℕ

/-- A value put into a request, the report it came from, and the providers at that moment. -/
structure Injection where
  packageName : Option Text
  providerId : Text
  value : Text
  report : Option Report
  store : SecretProviderStore

structure ProviderState where
  cell : UserCell
  changes : Text → ℕ
  reports : Text → Option Report
  served : List Serving
  injections : List Injection

namespace ProviderState

def store (s : ProviderState) : SecretProviderStore := s.cell.secretProviders

def withStore (s : ProviderState) (store : SecretProviderStore) : ProviderState :=
  { s with cell := { s.cell with secretProviders := store } }

/-- A change of these providers returns. -/
def changed (s : ProviderState) (which : Text → Bool) : ProviderState :=
  { s with changes := fun q => if which q then s.changes q + 1 else s.changes q }

end ProviderState

/-! ### Calls -/

inductive Call where
  | resolve (request : ProviderRequest)
  | bind (input : SecretProviderStore.BindInput)
  | unbind (providerId : Text)
  | setLocked (providerId : Text) (locked : Bool)
  | grant (providerId canonicalRef packageName : Text)
  | revoke (providerId canonicalRef packageName : Text)
  | packageSave (input : SaveInput)
  | packageDelete (name : Text)

/-- A ref that was resolved: its value, and the report this came from. -/
structure Resolved where
  provider : Text
  ref : Text
  value : Text
  report : Option Report

/-- A ref being resolved, those still to be, and those that were. -/
structure Pending where
  request : ProviderRequest
  provider : Text
  ref : Text
  rest : List (Text × Text)
  done : List Resolved

inductive SecretScope where
  | user | package | session
  deriving DecidableEq, Repr

/-- What a binding looks at in an entry of `secretList`. -/
structure SecretEntry where
  name : Text
  scope : SecretScope
  packageName : Option Text
  deriving DecidableEq, Repr

/-- Where a call stands: what it awaits, and what it has learned. -/
inductive Frame where
  | start (call : Call)
  | authorizing (x : Pending)
  | gettingPackage (x : Pending) (auth : Authorized)
  | running (x : Pending) (provisional : Bool) (startedAt : ℕ)
  | caching (x : Pending) (provisional : Bool) (hosts : List Text) (report : Report)
  | rechecking (x : Pending) (hosts : List Text) (report : Report)
  | bindingPackage (input : SecretProviderStore.BindInput) (pkg : Option PackageRow)
  | bindingDoor (input : SecretProviderStore.BindInput) (doors : List SecretEntry)
  | granting (providerId canonicalRef packageName : Text) (pkg : Option PackageRow)

inductive Ret where
  | resolved (replacements : Except Denial (List (Text × Text)))
  | bound (binding : Except Thrown (Option SecretProviderBinding))
  | granted (grant : Except Thrown (Option SecretProviderGrant))
  | saved (summary : Except Thrown PackageSummary)
  | deleted (deleted : Bool)

/-- What the outside supplies to one piece: the clock, the reply of a provider run, the entries of
    `secretList`, and the clock readings of a save. -/
structure Input where
  now : ℕ
  run : RunOutcome
  doors : List SecretEntry
  save : SaveClock

/-! ### The resolution -/

/-- The placeholders of the refs that were resolved, with their values. -/
def replacements (request : ProviderRequest) (done : List Resolved) : List (Text × Text) :=
  done.flatMap fun x => (request.placeholders.filter fun p =>
    decide (p.provider = x.provider ∧ p.ref = x.ref)).map fun p => (p.placeholder, x.value)

/-- The next ref, or the end: the values go into the request. -/
def proceed (s : ProviderState) (request : ProviderRequest) (rest : List (Text × Text))
    (done : List Resolved) : ProviderState × (Frame ⊕ Ret) :=
  match rest with
  | (provider, ref) :: rest => (s, .inl (.authorizing ⟨request, provider, ref, rest, done⟩))
  | [] =>
    ({ s with injections := done.map (fun x =>
        ⟨request.packageName, x.provider, x.value, x.report, s.store⟩) ++ s.injections },
      .inr (.resolved (.ok (replacements request done))))

/-- The host must be one of the item's, or approved by an admin. -/
def admitHost (s : ProviderState) (x : Pending) (value : Text) (hosts : List Text)
    (report : Option Report) : ProviderState × (Frame ⊕ Ret) :=
  if isHostApproved x.request.host hosts || x.request.hostApproved then
    proceed s x.request x.rest (x.done ++ [⟨x.provider, x.ref, value, report⟩])
  else
    let listed : Text := if hosts = [] then "none listed" else (", " : Text).intercalate hosts
    (s, .inr (.resolved (.error ⟨403, "secret_provider_host_not_allowed",
      "Host \"" ++ x.request.host ++ "\" is not among the hosts of " ++ x.provider ++ " item \"" ++
        x.ref ++ "\" (" ++ listed ++ ") and is not an admin-approved secret host.",
      [("provider", .str x.provider), ("ref", .str x.ref), ("itemHosts", .arr (hosts.map .str))]⟩)))

/-- A refusal of the user cell, with the ref it is about. -/
def refused (x : Pending) (denial : Denial) : Frame ⊕ Ret :=
  .inr (.resolved (.error
    { denial with details := [("provider", .str x.provider), ("ref", .str x.ref)] }))

def authorizePiece (s : ProviderState) (x : Pending) (now : ℕ) : ProviderState × (Frame ⊕ Ret) :=
  match secretProviderAuthorize s.store now x.provider x.ref x.request.packageName false with
  | (.error denial, store) => (s.withStore store, refused x denial)
  | (.ok auth, store) =>
    match auth.cached with
    | none => (s.withStore store, .inl (.gettingPackage x auth))
    | some cached =>
      let report := s.reports (SecretProviderStore.cacheKey x.provider x.ref)
      admitHost { s.withStore store with
          served := ⟨x.provider, cached.value, report, s.changes x.provider⟩ :: s.served }
        x cached.value cached.hosts report

/-- The run starts in this piece. -/
def packagePiece (s : ProviderState) (x : Pending) (auth : Authorized) :
    ProviderState × (Frame ⊕ Ret) :=
  match (s.cell.packages.find? auth.binding.packageName).bind fun row => row.manifest.secretProvider with
  | none => (s, .inr (.resolved (.error ⟨404, "secret_provider_package_missing",
      "Provider \"" ++ x.provider ++ "\" is bound to package \"" ++ auth.binding.packageName ++
        "\", which no longer declares kody.secretProvider.", [("provider", .str x.provider)]⟩)))
  | some _ => (s, .inl (.running x auth.provisional (s.changes x.provider)))

def runPiece (g : Gateway) (s : ProviderState) (x : Pending) (provisional : Bool) (startedAt : ℕ) :
    RunOutcome → ProviderState × (Frame ⊕ Ret)
  | .failed name message runId => (s, .inr (.resolved (.error ⟨502, "secret_provider_failed",
      "Provider \"" ++ x.provider ++ "\" could not resolve ref \"" ++ x.ref ++ "\": " ++
        name.getD "error" ++ ": " ++ message.getD "unknown error",
      [("provider", .str x.provider), ("ref", .str x.ref), ("runId", .str runId)]⟩)))
  | .ok result runId =>
    match parseProviderResult g result with
    | none => (s, .inr (.resolved (.error ⟨502, "secret_provider_invalid_result",
        "Provider \"" ++ x.provider ++ "\" returned something other than " ++
          "\x7b value: string, hosts?: string[], canonicalRef?: string \x7d for ref \"" ++ x.ref ++
          "\".",
        [("provider", .str x.provider), ("ref", .str x.ref), ("runId", .str runId)]⟩)))
    | some parsed => (s, .inl (.caching x provisional parsed.hosts
        ⟨x.provider, x.ref, parsed.value, parsed.canonicalRef.getD x.ref, startedAt⟩))

/-- `secretProviderCachePut`, and the report the cached value came from. -/
def cacheReport (g : Gateway) (s : ProviderState) (x : Pending) (hosts : List Text) (report : Report)
    (now : ℕ) : ProviderState :=
  let cachedAt := fun key => decide (0 < g.cacheTtlMs) &&
    (decide (key = SecretProviderStore.cacheKey x.provider x.ref) ||
      decide (key = SecretProviderStore.cacheKey x.provider report.canonicalRef))
  { s.withStore (s.store.cachePut now x.provider x.ref report.value hosts report.canonicalRef
      g.cacheTtlMs) with
    reports := fun key => if cachedAt key then some report else s.reports key }

/-- The value is cached before the grant is checked again. -/
def cachePiece (g : Gateway) (s : ProviderState) (x : Pending) (provisional : Bool)
    (hosts : List Text) (report : Report) (now : ℕ) : ProviderState × (Frame ⊕ Ret) :=
  let s := cacheReport g s x hosts report now
  if provisional || decide (report.canonicalRef ≠ x.ref) then
    (s, .inl (.rechecking x hosts report))
  else admitHost s x report.value hosts (some report)

def recheckPiece (s : ProviderState) (x : Pending) (hosts : List Text) (report : Report) (now : ℕ) :
    ProviderState × (Frame ⊕ Ret) :=
  match secretProviderAuthorize s.store now x.provider report.canonicalRef x.request.packageName
      true with
  | (.error denial, store) => (s.withStore store, refused x denial)
  | (.ok _, store) => admitHost (s.withStore store) x report.value hosts (some report)

/-! ### The other calls -/

def notFound (code what name tail : Text) : Thrown :=
  .kody code (what ++ " \"" ++ name ++ "\" " ++ tail) 404

def bindPackagePiece (s : ProviderState) (input : SecretProviderStore.BindInput)
    (pkg : Option PackageRow) (doors : List SecretEntry) : ProviderState × (Frame ⊕ Ret) :=
  match pkg with
  | none => (s, .inr (.bound (.error
      (notFound "package_not_found" "Package" input.packageName "was not found."))))
  | some row =>
    if row.manifest.secretProvider.all fun declared => decide (declared.id ≠ input.providerId) then
      let declares : Text := match row.manifest.secretProvider with
        | some declared => " (it declares \"" ++ declared.id ++ "\")"
        | none => []
      (s, .inr (.bound (.error (.kody "not_a_secret_provider" ("Package \"" ++ input.packageName ++
        "\" does not declare kody.secretProvider.id \"" ++ input.providerId ++ "\"" ++ declares ++
        ".")))))
    else (s, .inl (.bindingDoor input doors))

def bindDoorPiece (s : ProviderState) (input : SecretProviderStore.BindInput)
    (doors : List SecretEntry) (now : ℕ) : ProviderState × (Frame ⊕ Ret) :=
  if doors.any fun door => decide (door.name = input.doorSecretName ∧ (door.scope = .user ∨
      door.scope = .package ∧ door.packageName = some input.packageName)) then
    let store := s.store.bind now input
    ((s.withStore store).changed fun q => decide (q = input.providerId),
      .inr (.bound (.ok (store.get input.providerId))))
  else (s, .inr (.bound (.error (.kody "secret_not_found" ("Door secret \"" ++ input.doorSecretName ++
    "\" was not found; save it with secretSave first (scope user, or scope package for \"" ++
    input.packageName ++ "\").") 404))))

def setLockedPiece (s : ProviderState) (providerId : Text) (locked : Bool) (now : ℕ) :
    ProviderState × (Frame ⊕ Ret) :=
  match s.store.setLocked now providerId locked with
  | .error e => (s, .inr (.bound (.error e)))
  | .ok store => ((s.withStore store).changed fun q => decide (q = providerId),
      .inr (.bound (.ok (store.get providerId))))

def grantPiece (s : ProviderState) (providerId canonicalRef packageName : Text)
    (pkg : Option PackageRow) (now : ℕ) : ProviderState × (Frame ⊕ Ret) :=
  match pkg with
  | none => (s, .inr (.granted (.error
      (notFound "package_not_found" "Package" packageName "was not found."))))
  | some _ =>
    let store := s.store.grant now providerId canonicalRef packageName
    (s.withStore store, .inr (.granted (.ok
      (store.grants.find? (providerId, canonicalRef, packageName)))))

/-- A save changes the providers that are bound to the package. -/
def savePiece (g : Gateway) (s : ProviderState) (input : SaveInput) (clock : SaveClock) :
    ProviderState × (Frame ⊕ Ret) :=
  match packageSave g.host clock input s.cell with
  | (.error e, cell) => ({ s with cell := cell }, .inr (.saved (.error e)))
  | (.ok summary, cell) =>
    (({ s with cell := cell } : ProviderState).changed (s.store.servedBy summary.manifest.name),
      .inr (.saved (.ok summary)))

section
variable (g : Gateway)

/-- Runs a call to its next `await` or to its return. -/
def piece (s : ProviderState) : Frame → Input → ProviderState × (Frame ⊕ Ret)
  | .start (.resolve request), _ =>
    match request.packageName with
    | none => proceed s request (dedupeProviderRefs request.placeholders) []
    | some packageName =>
      if s.store.bindings.rows.any fun b => decide (b.packageName = packageName) then
        (s, .inr (.resolved (.error ⟨403, "secret_provider_recursion", "Package \"" ++ packageName ++
          "\" is a bound secret provider and may not use \x7b\x7bsecret/...\x7d\x7d placeholders " ++
          "itself; use \x7b\x7bsecret:name\x7d\x7d for its door secret.", []⟩)))
      else proceed s request (dedupeProviderRefs request.placeholders) []
  | .authorizing x, i => authorizePiece s x i.now
  | .gettingPackage x auth, _ => packagePiece s x auth
  | .running x provisional startedAt, i => runPiece g s x provisional startedAt i.run
  | .caching x provisional hosts report, i => cachePiece g s x provisional hosts report i.now
  | .rechecking x hosts report, i => recheckPiece s x hosts report i.now
  | .start (.bind input), _ =>
    (s, .inl (.bindingPackage input (s.cell.packages.find? input.packageName)))
  | .bindingPackage input pkg, i => bindPackagePiece s input pkg i.doors
  | .bindingDoor input doors, i => bindDoorPiece s input doors i.now
  | .start (.unbind providerId), _ =>
    ((s.withStore (s.store.unbind providerId)).changed fun q => decide (q = providerId),
      .inr (.deleted (s.store.get providerId).isSome))
  | .start (.setLocked providerId locked), i => setLockedPiece s providerId locked i.now
  | .start (.grant providerId canonicalRef packageName), _ =>
    if (s.store.get providerId).isNone then
      (s, .inr (.granted (.error (.kody "secret_provider_not_bound"
        ("No provider is bound as \"" ++ providerId ++ "\".") 404))))
    else (s, .inl (.granting providerId canonicalRef packageName (s.cell.packages.find? packageName)))
  | .granting providerId canonicalRef packageName pkg, i =>
    grantPiece s providerId canonicalRef packageName pkg i.now
  | .start (.revoke providerId canonicalRef packageName), _ =>
    ((s.withStore (s.store.revoke providerId canonicalRef packageName)).changed fun q =>
        decide (q = providerId),
      .inr (.deleted (s.store.isGranted providerId canonicalRef packageName)))
  | .start (.packageSave input), i => savePiece g s input i.save
  | .start (.packageDelete name), _ =>
    let (deleted, cell) := packageDelete name s.cell
    (({ s with cell := cell } : ProviderState).changed (s.store.servedBy name), .inr (.deleted deleted))

/-- The gateway's resolutions and the calls on the user cell that they race with. -/
def providers : Coop where
  Shared := ProviderState
  Call := Call
  Frame := Frame
  Input := Input
  Ret := Ret
  start := Frame.start
  resume s f i := some (piece g s f i)

end

end KodyCelld.Secrets
