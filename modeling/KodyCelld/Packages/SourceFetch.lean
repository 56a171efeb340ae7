import KodyCelld.Lib.Redirects
import KodyCelld.Lib.UrlPaths
import KodyCelld.Packages.Tar
import KodyCelld.Secrets.HostPolicy

namespace KodyCelld.Packages

open KodyCelld.Lib KodyCelld.Execute KodyCelld.Secrets

/-!
# Fetching a package source (`packages/install.ts`, `packages/git-smart-http.ts`)

The server fetches what an installer names, so it may only ask hosts that the policy allows, also
where an answer redirects it.

* `assertAllowedSourceUrl` — the policy for one URL;
* `readRedirects` — what both clients do with an answer;
* `fetchAllowed`, `fetchGit` — the client of archives and file maps, and that of git;
* `SourceChain` — what a chain of requests must be like;
* `sourceRequest_chain` — each client asks for nothing else.

The URL parser and the network are parameters; the timeout is left out.
-/

/-! ### The policy -/

/-- `PackageSourceHostPolicy` -/
structure SourcePolicy where
  allowedHosts : List Text
  privateHosts : List Text
  deriving DecidableEq, Repr

def refuseSource (message : Text) : Thrown := .kody "package_source_refused" message 403

def invalidUrl : Thrown := .error "Invalid URL"

/-- What the policy says of a URL. -/
def allowSource (policy : SourcePolicy) (url : Url) : Except Thrown Url :=
  if url.protocol ≠ "http:" ∧ url.protocol ≠ "https:" then
    .error (refuseSource ("Refusing non-http(s) source " ++ url.protocol))
  else if url.username ≠ [] ∨ url.password ≠ [] then
    .error (refuseSource "Sources may not embed credentials.")
  else
    let host := lower url.hostname
    if hostMatchesAllowlist host policy.privateHosts then .ok url
    else if isPrivateHostname host then
      .error (refuseSource ("\"" ++ host ++
        "\" is a loopback/private host; list it in KODY_PRIVATE_HOSTS to allow it."))
    else if policy.allowedHosts.any fun entry => decide (entry = "*") || hostMatchesApproval host entry
    then .ok url
    else .error (refuseSource ("\"" ++ host ++ "\" is not an allowed package source host (" ++
      (", " : Text).intercalate policy.allowedHosts ++ ")."))

def assertAllowedSourceUrl (u : UrlParser) (policy : SourcePolicy) (raw : Text) :
    Except Thrown Url :=
  match u.parse raw with
  | none => .error invalidUrl
  | some url => allowSource policy url

/-- `(raw) => assertAllowedSourceUrl(raw, …).toString()` -/
def assertAllowed (u : UrlParser) (policy : SourcePolicy) (raw : Text) : Except Thrown Text :=
  (assertAllowedSourceUrl u policy raw).map Url.href

/-! ### Requests and answers -/

structure Request where
  method : Text
  url : Text
  headers : List (Text × Text)
  body : Option (List UInt8)
  deriving DecidableEq, Repr

/-- An answer; the body comes in chunks and may break off. -/
structure Response where
  status : ℕ
  location : Option Text
  contentType : Option Text
  chunks : List (List UInt8)
  failure : Option Thrown
  deriving DecidableEq, Repr

/-- The answer to the last of the requests, which may depend on all of them. -/
abbrev Network : Type := List Request → Except Thrown Response

/-- The loop of `readBody`. -/
def readChunks (tooLarge : Thrown) (maxBytes : ℕ) (failure : Option Thrown) :
    (read : List UInt8) → (chunks : List (List UInt8)) → Except Thrown (List UInt8)
  | read, [] =>
    match failure with
    | some e => .error e
    | none => .ok read
  | read, chunk :: chunks =>
    if maxBytes < (read ++ chunk).length then .error tooLarge
    else readChunks tooLarge maxBytes failure (read ++ chunk) chunks

def readBody (what : Text) (response : Response) (maxBytes : ℕ) : Except Thrown (List UInt8) :=
  let tooLarge := invalidPackage (what ++ " is larger than " ++ natText maxBytes ++ " bytes.")
  readChunks tooLarge maxBytes response.failure [] response.chunks

/-- The errors of a fetch. -/
def fetchFailure (message : Text) (status : ℕ) : Thrown := .kody "package_source_failed" message status

/-- Where a redirect leads, as a text that is still to be checked. -/
def redirectTarget (u : UrlParser) (current location : Text) : Option Text := do
  let base ← u.parse current
  let target ← u.resolve location base
  return target.href

/-- What the clients do with the answer to a URL: follow it, complain about it or read it. -/
def readRedirects {α : Type} (u : UrlParser) (complaint : Url → (current status : Text) → Text)
    (read : Text → Response → Except Thrown α) (current : Text) (response : Response) :
    Except Thrown (Text ⊕ α) :=
  if 300 ≤ response.status ∧ response.status < 400 then
    match response.location.getD [] with
    | [] => .error (fetchFailure (current ++ " redirected without a location.") 502)
    | location =>
      match redirectTarget u current location with
      | none => .error invalidUrl
      | some target => .ok (.inl target)
  else if response.status < 200 ∨ 300 ≤ response.status then
    match u.parse current with
    | none => .error invalidUrl
    | some url => .error (fetchFailure (complaint url current (natText response.status))
        (if response.status = 404 then 404 else 502))
  else (read current response).map Sum.inr

/-- A client of package sources, after the requests that were sent before it was called. -/
def sourceClient {α : Type} (u : UrlParser) (check : Text → Except Thrown Text) (net : Network)
    (before : List Request) (init : Text → Request) (complaint : Url → (current status : Text) → Text)
    (read : Text → Response → Except Thrown α) : Client Thrown α where
  check := check
  ask sent current := do
    let response ← net (before ++ sent.map init ++ [init current])
    readRedirects u complaint read current response
  tooMany := fetchFailure "Too many redirects." 502

/-! ### The client of archives and file maps -/

structure PackageSourceLimits where
  maxDownloadBytes : ℕ
  maxArchiveBytes : ℕ
  maxFiles : ℕ
  maxRedirects : ℕ
  deriving DecidableEq, Repr

def packageSourceLimits : PackageSourceLimits where
  maxDownloadBytes := 8 * 1024 * 1024
  maxArchiveBytes := 24 * 1024 * 1024
  maxFiles := 400
  maxRedirects := 3

structure Download where
  url : Text
  contentType : Text
  bytes : List UInt8
  deriving DecidableEq, Repr

def downloadInit (url : Text) : Request where
  method := "GET"
  url := url
  headers := ([("user-agent", "kody-celld/0.1 (package-install)"),
    ("accept", "application/octet-stream, application/json, */*")] : List (Text × Text))
  body := none

def readDownload (current : Text) (response : Response) : Except Thrown Download := do
  let bytes ← readBody "Source" response packageSourceLimits.maxDownloadBytes
  return ⟨current, response.contentType.getD [], bytes⟩

def downloadClient (u : UrlParser) (policy : SourcePolicy) (net : Network) (before : List Request) :
    Client Thrown Download :=
  sourceClient u (assertAllowed u policy) net before downloadInit
    (fun url current status => url.host ++ " returned " ++ status ++ " for " ++ current ++ ".")
    readDownload

/-- Fetches with redirects followed by hand so every hop passes the host checks. -/
def fetchAllowed (u : UrlParser) (policy : SourcePolicy) (net : Network) (before : List Request)
    (raw : Text) : Chain Thrown Download :=
  request (downloadClient u policy net before) (packageSourceLimits.maxRedirects + 1) raw

/-! ### The client of git -/

structure GitCloneLimits where
  maxDownloadBytes : ℕ
  maxFiles : ℕ
  maxTotalBytes : ℕ
  maxRedirects : ℕ
  deriving DecidableEq, Repr

def defaultLimits : GitCloneLimits where
  maxDownloadBytes := 8 * 1024 * 1024
  maxFiles := 400
  maxTotalBytes := 24 * 1024 * 1024
  maxRedirects := 3

structure GitAnswer where
  url : Text
  bytes : List UInt8
  deriving DecidableEq, Repr

def readGitAnswer (limits : GitCloneLimits) (current : Text) (response : Response) :
    Except Thrown GitAnswer := do
  let bytes ← readBody "Git response" response limits.maxDownloadBytes
  return ⟨current, bytes⟩

def gitClient (u : UrlParser) (policy : SourcePolicy) (net : Network) (before : List Request)
    (init : Text → Request) (limits : GitCloneLimits) : Client Thrown GitAnswer :=
  sourceClient u (assertAllowed u policy) net before init
    (fun url _ status => url.host ++ " returned " ++ status ++ " for git " ++ url.pathname ++ ".")
    (readGitAnswer limits)

def fetchGit (u : UrlParser) (policy : SourcePolicy) (net : Network) (before : List Request)
    (init : Text → Request) (limits : GitCloneLimits) (raw : Text) : Chain Thrown GitAnswer :=
  request (gitClient u policy net before init limits) (limits.maxRedirects + 1) raw

/-! ### What the policy looks at -/

section
variable {u : UrlParser} {policy : SourcePolicy} {v w : Url}

/-- **Inversion.**  A URL that is let through is the one that was asked about, and is http or https. -/
theorem allowSource_eq_ok (h : allowSource policy v = .ok w) : w = v ∧ v.IsHttp := by
  unfold allowSource at h
  dsimp only at h
  split_ifs at h with hprotocol hcredentials
  all_goals
    refine ⟨(Except.ok.inj h).symm, ?_⟩
    rwa [not_and_or, not_not, not_not] at hprotocol

/-- The policy looks at nothing but who answers. -/
theorem allowSource_sameHost (hhost : v.SameHost w) (h : allowSource policy v = .ok v) :
    allowSource policy w = .ok w := by
  unfold allowSource at h ⊢
  rw [hhost.protocol, hhost.username, hhost.password, hhost.hostname] at h
  dsimp only at h ⊢
  split_ifs at h ⊢
  all_goals rfl

/-- The policy lets the URL through, as it is. -/
def Admitted (u : UrlParser) (policy : SourcePolicy) (url : Text) : Prop :=
  ∃ v, assertAllowedSourceUrl u policy url = .ok v ∧ v.href = url

theorem assertAllowedSourceUrl_eq_ok {raw : Text} :
    assertAllowedSourceUrl u policy raw = .ok v ↔
      u.parse raw = some v ∧ allowSource policy v = .ok v := by
  unfold assertAllowedSourceUrl
  cases u.parse raw with
  | none => simp
  | some url =>
    constructor
    · intro h
      obtain ⟨rfl, -⟩ := allowSource_eq_ok h
      exact ⟨rfl, h⟩
    · rintro ⟨hurl, h⟩
      obtain rfl := Option.some.inj hurl
      exact h

theorem assertAllowed_eq_ok {raw url : Text} (h : assertAllowed u policy raw = .ok url) :
    ∃ v, u.parse raw = some v ∧ allowSource policy v = .ok v ∧ v.href = url := by
  unfold assertAllowed at h
  cases hraw : assertAllowedSourceUrl u policy raw with
  | error e =>
    rw [hraw] at h
    cases h
  | ok v =>
    rw [hraw] at h
    obtain ⟨hparse, hallow⟩ := assertAllowedSourceUrl_eq_ok.mp hraw
    exact ⟨v, hparse, hallow, Except.ok.inj h⟩

/-- What was let through is let through again. -/
theorem admitted_of_assertAllowed (hu : u.Reparses) {raw url : Text}
    (h : assertAllowed u policy raw = .ok url) : Admitted u policy url := by
  obtain ⟨v, hparse, hallow, rfl⟩ := assertAllowed_eq_ok h
  exact ⟨v, assertAllowedSourceUrl_eq_ok.mpr ⟨hu raw v hparse, hallow⟩, rfl⟩

end

/-! ### Chains of requests -/

/-- An answer redirects from one URL to the next. -/
def Redirected (u : UrlParser) (net : Network) (asked : List Request) (url next : Text) : Prop :=
  ∃ response location, net asked = .ok response ∧ 300 ≤ response.status ∧ response.status < 400 ∧
    response.location = some location ∧ redirectTarget u url location = some next

/-- **A chain of requests for a source**: the policy lets each URL through, a bounded number of them,
    and each after the first is where the answer to the one before it led. -/
structure SourceChain (u : UrlParser) (policy : SourcePolicy) (net : Network) (before : List Request)
    (init : Text → Request) (maxRedirects : ℕ) (sent : List Text) : Prop where
  admitted : ∀ url ∈ sent, Admitted u policy url
  bounded : sent.length ≤ maxRedirects + 1
  redirected : ∀ earlier url next, earlier ++ [url, next] <+: sent →
    Redirected u net (before ++ (earlier ++ [url]).map init) url next

section
variable {u : UrlParser} {policy : SourcePolicy} {net : Network} {before : List Request}
variable {init : Text → Request} {α : Type} {complaint : Url → (current status : Text) → Text}
variable {read : Text → Response → Except Thrown α}

/-- **Inversion.**  The answer that a client follows is a redirect with a location. -/
theorem readRedirects_eq_inl {current target : Text} {response : Response}
    (h : readRedirects u complaint read current response = .ok (.inl target)) :
    300 ≤ response.status ∧ response.status < 400 ∧
      ∃ location, response.location = some location ∧
        redirectTarget u current location = some target := by
  unfold readRedirects at h
  split at h
  · rename_i hstatus
    refine ⟨hstatus.1, hstatus.2, ?_⟩
    split at h
    · cases h
    rename_i hempty
    split at h
    · cases h
    rename_i found htarget
    obtain rfl : found = target := Sum.inl.inj (Except.ok.inj h)
    cases hsome : response.location with
    | none =>
      rw [hsome] at hempty
      exact absurd rfl hempty
    | some given =>
      rw [hsome, Option.getD_some] at htarget
      exact ⟨given, rfl, htarget⟩
  · split at h
    · split at h
      · cases h
      · cases h
    · cases hread : read current response with
      | error e =>
        rw [hread] at h
        cases h
      | ok value =>
        rw [hread] at h
        cases h

/-- A redirect leads to the URL that is checked and then asked for. -/
theorem sourceClient_leads (hu : u.Lawful) {sent : List Text} {url next : Text}
    (h : (sourceClient u (assertAllowed u policy) net before init complaint read).Leads
      sent url next) :
    Redirected u net (before ++ (sent ++ [url]).map init) url next := by
  obtain ⟨target, hask, hcheck⟩ := h
  obtain ⟨response, hresponse, hread⟩ := bind_eq_ok hask
  obtain ⟨hlow, hhigh, location, hlocation, htarget⟩ := readRedirects_eq_inl hread
  obtain ⟨v, hparse, -, rfl⟩ := assertAllowed_eq_ok hcheck
  -- the text that is checked is the serialisation of the URL that the location means
  obtain ⟨base, hbase, hresolved⟩ := Option.bind_eq_some_iff.mp htarget
  obtain ⟨found, hfound, hhref⟩ := Option.bind_eq_some_iff.mp hresolved
  obtain rfl := Option.some.inj hhref
  have hagain := hu.resolves _ _ _ hfound
  obtain rfl := Option.some.inj (hparse.symm.trans hagain)
  refine ⟨response, location, ?_, hlow, hhigh, hlocation, htarget⟩
  rw [List.map_append, ← List.append_assoc]
  exact hresponse

/-- **The clients' chains.**  Whatever the network answers, a client of package sources asks only for
    what the policy allows. -/
theorem sourceRequest_chain (hu : u.Lawful) {maxRedirects : ℕ} {raw : Text} :
    SourceChain u policy net before init maxRedirects
      (request (sourceClient u (assertAllowed u policy) net before init complaint read)
        (maxRedirects + 1) raw).sent where
  admitted url hmem := by
    obtain ⟨checked, hcheck⟩ := request_passed url hmem
    exact admitted_of_assertAllowed hu.reparses hcheck
  bounded := request_length
  redirected _ _ _ hprefix := sourceClient_leads hu (request_linked hprefix)

end

end KodyCelld.Packages
