import KodyCelld.Lib.Texts
import KodyCelld.Lib.Url
import KodyCelld.Packages.Manifest
import KodyCelld.Secrets.HostPolicy

namespace KodyCelld.Apps

open KodyCelld.Lib
open KodyCelld.Packages (packageNamePattern)
open KodyCelld.Secrets (isHexDigit)

/-!
# Where package apps live (`apps/app-url.ts`)

In path mode every user is on one app host, in subdomain mode each has an origin of its own.

* `readAppConfig` — the configuration that `KODY_APP_BASE_URL` asks for;
* `appUrl` — the URL that a package app is mounted at;
* `isAppOriginHost` — whether a URL is on the app origin;
* `matchAppRequest` — the user, the package and the path that a URL is for.
-/

inductive AppMode where
  | path
  | subdomain
  deriving DecidableEq, Repr

/-- `hostname` is the app host, or the apex under the wildcard; `port` is empty or `:<port>`. -/
structure AppOriginConfig where
  mode : AppMode
  protocol : Text
  hostname : Text
  port : Text
  deriving DecidableEq, Repr

structure AppTarget where
  userId : Text
  packageName : Text
  origin : Text
  mountPath : Text
  restPath : Text
  deriving DecidableEq, Repr

inductive AppRequestMatch where
  | app (target : AppTarget)
  | root
  | notFound
  deriving DecidableEq, Repr

/-! ### Patterns -/

/-- `/^[A-Za-z0-9_-]{1,64}$/` -/
def pathUserIdPattern (text : Text) : Bool :=
  !text.isEmpty && decide (text.length ≤ 64) &&
    text.all fun c => isLetter c || isDigit c || decide (c = '_') || decide (c = '-')

/-- `/^user-([0-9a-f]{32})$/`, with what it captures. -/
def userLabelPattern (text : Text) : Option Text :=
  let userLabel : Text := "user-"
  if userLabel.isPrefixOf text then
    let digits := text.drop userLabel.length
    if digits.length = 32 ∧ digits.all isHexDigit then some digits else none
  else none

/-- What `.` does not match. -/
def isLineEnd (c : Char) : Bool := decide (c ∈ ['\n', '\r', '\u2028', '\u2029'])

def packagesPath : Text := "/packages/"

/-- `/^\/u\/([^/]+)(\/packages\/.*)$/`, with what it captures. -/
def pathPattern (pathname : Text) : Option (Text × Text) :=
  let users : Text := "/u/"
  if users.isPrefixOf pathname then
    let body := pathname.drop users.length
    let userId := body.takeWhile fun c => decide (c ≠ '/')
    let rest := body.dropWhile fun c => decide (c ≠ '/')
    if userId ≠ [] ∧ packagesPath.isPrefixOf rest ∧ rest.all (fun c => !isLineEnd c) then
      some (userId, rest)
    else none
  else none

/-- `/^user_([0-9a-f]{32})$/`, with what it captures. -/
def userIdPattern (text : Text) : Option Text :=
  let user : Text := "user_"
  if user.isPrefixOf text then
    let digits := text.drop user.length
    if digits.length = 32 ∧ digits.all isHexDigit then some digits else none
  else none

/-- `/^(https?):\/\/\*\.(.+)$/i`, with what it captures. -/
def wildcardPattern (text : Text) : Option (Text × Text) :=
  let scheme := text.takeWhile fun c => decide (c ≠ ':')
  let mark : Text := "://*."
  let rest := text.drop scheme.length
  if lower scheme ∈ (["http", "https"] : List Text) ∧ mark.isPrefixOf rest then
    let apex := rest.drop mark.length
    if apex ≠ [] ∧ apex.all (fun c => !isLineEnd c) then some (scheme, apex) else none
  else none

/-! ### The configuration -/

inductive AppConfigResult where
  | ok (config : AppOriginConfig) (baseUrl : Text)
  | error (message : Text)
  deriving DecidableEq, Repr

/-- What is read of a URL that may be the base. -/
def configFrom (mode : AppMode) (parsed : Url) : AppOriginConfig where
  mode := mode
  protocol := parsed.protocol
  hostname := parsed.hostname
  port := if parsed.port = [] then [] else ':' :: parsed.port

/-- The text that is parsed: without the wildcard, where there is one. -/
def baseText (raw : Text) : (wildcard : Option (Text × Text)) → Text
  | some (scheme, apex) => scheme ++ "://" ++ apex
  | none => raw

/-- `none`: package apps are off; an error keeps them off and explains why. -/
def readAppConfig (u : UrlParser) (baseUrl : Option Text) (publicUrl : Text) :
    Option AppConfigResult :=
  let raw := trim (baseUrl.getD [])
  if raw = [] then none
  else
    let wildcard := wildcardPattern raw
    match u.parse (baseText raw wildcard) with
    | none => some (.error ("KODY_APP_BASE_URL \"" ++ raw ++ "\" is not a URL."))
    | some parsed =>
      if parsed.protocol ≠ "http:" ∧ parsed.protocol ≠ "https:" then
        some (.error "KODY_APP_BASE_URL must use http or https.")
      else if parsed.pathname ≠ "/" ∨ parsed.search ≠ [] ∨ parsed.hash ≠ [] ∨
          parsed.username ≠ [] ∨ parsed.password ≠ [] then
        some (.error
          "KODY_APP_BASE_URL must be an origin: no path, query, fragment, or credentials.")
      else
        let config := configFrom (if wildcard.isSome then .subdomain else .path) parsed
        match u.parse publicUrl with
        | none => some (.error "KODY_PUBLIC_URL is not a URL.")
        | some publicUrl =>
          -- the app session cookie would travel in clear text while Kody's own stays Secure
          if publicUrl.protocol = "https:" ∧ config.protocol ≠ "https:" then
            some (.error "KODY_APP_BASE_URL must use https when KODY_PUBLIC_URL does.")
          else if publicUrl.hostname = config.hostname then
            some (.error "KODY_APP_BASE_URL must use a different host than KODY_PUBLIC_URL.")
          else if config.mode = .subdomain ∧ ('.' :: config.hostname).isSuffixOf publicUrl.hostname then
            some (.error ("KODY_PUBLIC_URL must not sit under the package-app wildcard *." ++
              config.hostname ++ "."))
          else
            some (.ok config (config.protocol ++ "//" ++ (if wildcard.isSome then ("*." : Text) else []) ++
              config.hostname ++ config.port))

/-- A user whose id is no label has no origin under a wildcard. -/
def appOrigin (config : AppOriginConfig) (userId : Text) : Option Text :=
  match config.mode with
  | .path => some (config.protocol ++ "//" ++ config.hostname ++ config.port)
  | .subdomain => (userIdPattern userId).map fun digits =>
      config.protocol ++ "//user-" ++ digits ++ "." ++ config.hostname ++ config.port

def appMountPath (config : AppOriginConfig) (userId packageName : Text) : Text :=
  match config.mode with
  | .path => "/u/" ++ userId ++ "/packages/" ++ packageName
  | .subdomain => "/packages/" ++ packageName

/-- The app's public mount URL, without a trailing slash. -/
def appUrl (config : AppOriginConfig) (userId packageName : Text) : Option Text :=
  (appOrigin config userId).map fun origin => origin ++ appMountPath config userId packageName

/-! ### Requests -/

/-- Any request to the app host (any port) belongs to the app origin. -/
def isAppOriginHost (config : AppOriginConfig) (url : Url) : Bool :=
  let hostname := lower url.hostname
  decide (hostname = config.hostname) ||
    (decide (config.mode = .subdomain) && ('.' :: config.hostname).isSuffixOf hostname)

/-- How many segments of a path are the name of a package: two, if it is scoped. -/
def nameSegments (segments : List Text) : ℕ :=
  if (segments.headD []).head? = some '@' then 2 else 1

def withPackage (userId pathPrefix rest origin : Text) : AppRequestMatch :=
  if !packagesPath.isPrefixOf rest then .notFound
  else
    let segments := (rest.drop packagesPath.length).splitOn '/'
    let take := nameSegments segments
    if segments.length < take then .notFound
    else
      let packageName := ['/'].intercalate (segments.take take)
      if !packageNamePattern packageName then .notFound
      else
        let tail := rest.drop (packagesPath ++ packageName).length
        .app ⟨userId, packageName, origin, pathPrefix ++ packagesPath ++ packageName,
          if tail = [] then ['/'] else tail⟩

/-- What a URL is for; `none` off the app origin. -/
def matchAppRequest (config : AppOriginConfig) (url : Url) : Option AppRequestMatch :=
  if !isAppOriginHost config url then none
  else
    let hostname := lower url.hostname
    let origin := config.protocol ++ "//" ++ url.host
    match config.mode with
    | .path =>
      if url.pathname = "/" then some .root
      else match pathPattern url.pathname with
        | none => some .notFound
        | some (userId, rest) =>
          if !pathUserIdPattern userId then some .notFound
          else some (withPackage userId ("/u/" ++ userId) rest origin)
    | .subdomain =>
      if hostname = config.hostname then
        some (if url.pathname = "/" then .root else .notFound)
      else match userLabelPattern (hostname.take (hostname.length - (config.hostname.length + 1))) with
        | none => some .notFound
        | some digits =>
          if url.pathname = "/" then some .root
          else some (withPackage ("user_" ++ digits) [] url.pathname origin)

/-! ### Matches -/

/-- A target has the user and the origin that it was looked for with. -/
theorem withPackage_app {userId pathPrefix rest origin : Text} {target : AppTarget}
    (h : withPackage userId pathPrefix rest origin = .app target) :
    target.userId = userId ∧ target.origin = origin ∧
      packageNamePattern target.packageName = true := by
  unfold withPackage at h
  split at h
  · cases h
  dsimp only at h
  split at h
  · cases h
  split at h
  · cases h
  rename_i hname
  cases h
  exact ⟨rfl, rfl, by simpa using hname⟩

/-- **The app of a request** is on the origin that the request was sent to. -/
theorem matchAppRequest_app {config : AppOriginConfig} {url : Url} {target : AppTarget}
    (h : matchAppRequest config url = some (.app target)) :
    isAppOriginHost config url = true ∧ target.origin = config.protocol ++ "//" ++ url.host ∧
      packageNamePattern target.packageName = true := by
  unfold matchAppRequest at h
  split at h
  · cases h
  rename_i hhost
  refine ⟨by simpa using hhost, ?_⟩
  dsimp only at h
  split at h
  · split at h
    · cases h
    · split at h
      · cases h
      · split at h
        · cases h
        · exact (withPackage_app (Option.some.inj h)).2
  · split at h
    · split at h
      · cases h
      · cases h
    · split at h
      · cases h
      · split at h
        · cases h
        · exact (withPackage_app (Option.some.inj h)).2

end KodyCelld.Apps
