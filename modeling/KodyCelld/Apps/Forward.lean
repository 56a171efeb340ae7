import KodyCelld.Lib.Cookies
import KodyCelld.Lib.FormUrlencoded
import KodyCelld.Mcp.PolicyFetch

namespace KodyCelld.Apps

open KodyCelld.Lib
open KodyCelld.Mcp (Headers)

/-!
# Between the app origin and package code (`apps/forward.ts`)

Kody credentials and host-internal headers never reach the app; the app cannot set Kody cookies.

* `buildAppRequest`, `sanitizeAppResponse` — the code;
* `searchWithoutHandoff_clean` — the query that an app sees has no handoff parameter;
* `CookieBoundary` — what should hold of a request and of the cookies of its response;
* `buildAppRequest_clean` — the first part of it holds of every request;
* `cookie_boundary` — the second holds exactly if no nameless cookie looks like one of Kody's;
* `planted` — one that does.

Header names are in lower case; the cookies of a response are apart from its other headers.
-/

def appSessionCookieName : Text := "kody_app_session"
def appStateCookieName : Text := "kody_app_state"
def handoffParam : Text := "__kody_handoff"
def appContextHeader : Text := "x-kody-app-context"

def kodyFirstPartyCookieNames : List Text :=
  ["kody_session", "__Host-kody_session", "kody_console", "__Host-kody_console"]

def kodyCookieNames : List Text :=
  appSessionCookieName :: appStateCookieName :: kodyFirstPartyCookieNames

structure AppPackageContext where
  packageName : Text
  version : Text
  hostedUrl : Text
  appBasePath : Text
  assetBasePath : Text
  deriving DecidableEq, Repr

structure AppRequestContext where
  runId : Text
  packageContext : AppPackageContext
  deriving DecidableEq, Repr

/-- `JSON.stringify(context)` -/
def AppRequestContext.json (context : AppRequestContext) : Text :=
  jsonObject (jsonMember "runId" (jsonString context.runId) ++
    jsonMember "packageContext" (jsonObject (
      jsonMember "packageName" (jsonString context.packageContext.packageName) ++
      jsonMember "version" (jsonString context.packageContext.version) ++
      jsonMember "hostedUrl" (jsonString context.packageContext.hostedUrl) ++
      jsonMember "appBasePath" (jsonString context.packageContext.appBasePath) ++
      jsonMember "assetBasePath" (jsonString context.packageContext.assetBasePath))))

/-- A request as it comes in. -/
structure WebRequest where
  method : Text
  url : Url
  headers : Headers
  body : Text

/-- The URL of a request that is built: an origin, a path and a query. -/
structure TargetUrl where
  origin : Text
  pathname : Text
  search : Text
  deriving DecidableEq, Repr

/-- A request as package code sees it. -/
structure BuiltRequest where
  method : Text
  target : TargetUrl
  headers : Headers
  body : Option Text

structure AppResponse where
  status : ℕ
  statusText : Text
  headers : Headers
  setCookies : List Text
  body : Option Text

/-! ### Cookies and queries -/

def cookieName (pair : Text) : Text := trim (upTo '=' pair)

/-- `url.searchParams` -/
def searchParams (search : Text) : List (Text × Text) := formParse (search.drop 1)

/-- The query string without `__kody_handoff`; untouched when the param is absent. -/
def searchWithoutHandoff (search : Text) : Text :=
  if (searchParams search).all fun param => decide (param.1 ≠ handoffParam) then search
  else
    let search := formSerialize ((searchParams search).filter fun param =>
      decide (param.1 ≠ handoffParam))
    if search = [] then [] else '?' :: search

/-- The pairs of a `Cookie` header that are kept. -/
def keptPairs (header : Text) : List Text :=
  ((header.splitOn ';').map trim).filter fun pair =>
    !pair.isEmpty && decide (cookieName pair ∉ kodyCookieNames)

def cookieHeaderWithoutKody (header : Option Text) : Option Text :=
  match header with
  | none => none
  | some header =>
    if header = [] then none
    else if keptPairs header = [] then none
    else some (joinPairs (keptPairs header))

def internalPrefix : Text := "x-kody-"

/-- Whether a header is internal to the host. -/
def isInternal (name : Text) : Bool := internalPrefix.isPrefixOf name

/-! ### Requests and responses -/

/-- The Request the package's fetch handler sees: mount stripped, credentials removed, context
    attached. -/
def buildAppRequest (request : WebRequest) (origin restPath : Text) (context : AppRequestContext) :
    BuiltRequest :=
  let headers : Headers := request.headers.filter fun header => !isInternal header.1
  let headers :=
    match cookieHeaderWithoutKody (request.headers.get "cookie") with
    | some cookie => headers.set "cookie" cookie
    | none => headers.delete "cookie"
  { method := request.method
    target := ⟨origin, restPath, searchWithoutHandoff request.url.search⟩
    headers := headers.set appContextHeader context.json
    body := if request.method = "GET" ∨ request.method = "HEAD" then none else some request.body }

/-- Whether a `Set-Cookie` header of an app is let through. -/
def letThrough (cookie : Text) : Bool := decide (cookieName (upTo ';' cookie) ∉ kodyCookieNames)

def sanitizeAppResponse (response : AppResponse) : AppResponse :=
  let headers : Headers := response.headers.filter fun header =>
    !(decide (header.1 = "set-cookie") || isInternal header.1)
  { response with
    headers := headers.set "x-content-type-options" "nosniff"
    setCookies := response.setCookies.filter letThrough }

/-! ### The boundary -/

/-- A reader of `name=value` pairs finds a Kody cookie in a `Cookie` header. -/
def CarriesKody (header : Text) : Prop := ∃ pair ∈ readCookies header, pair.1 ∈ kodyCookieNames

/-- **What package code sees**: no Kody cookie, and no internal header but the context. -/
def RequestClean (context : AppRequestContext) (headers : Headers) : Prop :=
  (∀ header ∈ headers, header.1 = "cookie" → ¬CarriesKody header.2) ∧
  ∀ header ∈ headers, isInternal header.1 = true → header = (appContextHeader, context.json)

/-- A browser that stores what it is sent, as far as its policy on attributes keeps it, can later
    send a header in which a Kody cookie is read. -/
def Plants (keeps : Text → Bool) (setCookies : List Text) : Prop :=
  ∃ cookies : List Cookie,
    (∀ cookie ∈ cookies, ∃ header ∈ setCookies, keeps header = true ∧
      parseSetCookie header = some cookie) ∧
    CarriesKody (cookieHeader cookies)

/-- **The boundary**: a request is clean, and the cookies of a response plant none of Kody's. -/
def CookieBoundary (keeps : Text → Bool) (request : WebRequest) (origin restPath : Text)
    (context : AppRequestContext) (response : AppResponse) : Prop :=
  RequestClean context (buildAppRequest request origin restPath context).headers ∧
  ¬Plants keeps (sanitizeAppResponse response).setCookies

/-! ### Queries -/

/-- **The query that an app sees** has no handoff parameter. -/
theorem searchWithoutHandoff_clean (search : Text) :
    ∀ param ∈ searchParams (searchWithoutHandoff search), param.1 ≠ handoffParam := by
  intro param hparam
  unfold searchWithoutHandoff at hparam
  split at hparam
  · rename_i hall
    exact of_decide_eq_true (List.all_eq_true.mp hall param hparam)
  · dsimp only at hparam
    split at hparam
    · cases hparam
    unfold searchParams at hparam
    rw [List.drop_one, List.tail_cons, formParse_formSerialize] at hparam
    exact of_decide_eq_true (List.mem_filter.mp hparam).2

/-! ### Requests -/

theorem keptPairs_plain {header pair : Text} (h : pair ∈ keptPairs header) :
    ';' ∉ pair ∧ cookieName pair ∉ kodyCookieNames := by
  obtain ⟨hmem, hkept⟩ := List.mem_filter.mp h
  obtain ⟨piece, hpiece, rfl⟩ := List.mem_map.mp hmem
  rw [Bool.and_eq_true, decide_eq_true_eq] at hkept
  exact ⟨fun hc => not_mem_of_mem_splitOn hpiece (trim_subset _ hc), hkept.2⟩

/-- The cookies that are kept are none of Kody's. -/
theorem cookieHeaderWithoutKody_clean {header : Option Text} {kept : Text}
    (h : cookieHeaderWithoutKody header = some kept) : ¬CarriesKody kept := by
  unfold cookieHeaderWithoutKody at h
  split at h
  · cases h
  rename_i header
  split at h
  · cases h
  split at h
  · cases h
  rw [← Option.some.inj h]
  rintro ⟨pair, hpair, hname⟩
  rw [readCookies_joinPairs fun pair hpair => (keptPairs_plain hpair).1] at hpair
  obtain ⟨text, htext, hread⟩ := List.mem_filterMap.mp hpair
  unfold readPair at hread
  split at hread
  · rw [← Option.some.inj hread] at hname
    exact (keptPairs_plain htext).2 hname
  · cases hread

theorem mem_set {headers : Headers} {name value : Text} {header : Text × Text} :
    header ∈ headers.set name value ↔
      (header ∈ headers ∧ header.1 ≠ name) ∨ header = (name, value) := by
  unfold Headers.set Headers.delete
  rw [List.mem_append, List.mem_filter, List.mem_singleton, decide_eq_true_eq]

/-- **Every request is clean.** -/
theorem buildAppRequest_clean (request : WebRequest) (origin restPath : Text)
    (context : AppRequestContext) :
    RequestClean context (buildAppRequest request origin restPath context).headers := by
  have hcontext : appContextHeader ≠ ("cookie" : Text) := by decide
  have hcookie : isInternal "cookie" = false := by decide
  unfold buildAppRequest
  dsimp only
  cases hkept : cookieHeaderWithoutKody (request.headers.get "cookie") with
  | none =>
    constructor
    · intro header hheader hname
      rcases mem_set.mp hheader with ⟨hmem, -⟩ | rfl
      · exact absurd hname (of_decide_eq_true (List.mem_filter.mp hmem).2)
      · exact absurd hname hcontext
    · intro header hheader hinternal
      rcases mem_set.mp hheader with ⟨hmem, -⟩ | heq
      · have hexternal := (List.mem_filter.mp (List.mem_filter.mp hmem).1).2
        rw [hinternal] at hexternal
        cases hexternal
      · exact heq
  | some kept =>
    constructor
    · intro header hheader hname
      rcases mem_set.mp hheader with ⟨hmem, -⟩ | rfl
      · rcases mem_set.mp hmem with ⟨-, hne⟩ | rfl
        · exact absurd hname hne
        · exact cookieHeaderWithoutKody_clean hkept
      · exact absurd hname hcontext
    · intro header hheader hinternal
      rcases mem_set.mp hheader with ⟨hmem, -⟩ | heq
      · rcases mem_set.mp hmem with ⟨hmem, -⟩ | rfl
        · have hexternal := (List.mem_filter.mp hmem).2
          rw [hinternal] at hexternal
          cases hexternal
        · rw [hcookie] at hinternal
          cases hinternal
      · exact heq

/-! ### Cookies of an app -/

theorem kodyCookieNames_ne : ([] : Text) ∉ kodyCookieNames := by decide

/-- A cookie with a name that is let through is read under none of Kody's. -/
theorem letThrough_named {header : Text} {cookie : Cookie} (h : letThrough header = true)
    (hparse : parseSetCookie header = some cookie) (hname : cookie.name ≠ []) :
    trim cookie.name ∉ kodyCookieNames := by
  have hnot := of_decide_eq_true h
  rw [← parseSetCookie_some hparse] at hname ⊢
  unfold setCookiePair at hname ⊢
  dsimp only at hname ⊢
  split at hname
  · rename_i hpair
    rw [if_pos hpair]
    show trim (trimWsp _) ∉ _
    rw [trim_trimWsp]
    exact hnot
  · exact absurd rfl hname

/-- A nameless cookie that is a pair is let through. -/
theorem letThrough_nameless {header : Text} {cookie : Cookie}
    (hparse : parseSetCookie header = some cookie) (hname : cookie.name = [])
    (hpair : '=' ∈ cookie.value) : letThrough header = true := by
  unfold letThrough
  rw [decide_eq_true_eq]
  rw [← parseSetCookie_some hparse] at hname hpair
  unfold setCookiePair at hname hpair
  dsimp only at hname hpair
  split at hname
  · -- what is before the first `=` is blank, and is no name
    have hblank : trimWsp (upTo '=' (upTo ';' header)) = [] := hname
    unfold cookieName
    rw [← trim_trimWsp, hblank]
    exact kodyCookieNames_ne
  · rename_i hnone
    rw [if_neg hnone] at hpair
    exact absurd (trimWsp_subset _ hpair) hnone

/-- **The boundary holds** exactly if no nameless cookie of the response, among those that the browser
    keeps, reads as a pair with a Kody name. -/
theorem cookie_boundary (keeps : Text → Bool) (request : WebRequest) (origin restPath : Text)
    (context : AppRequestContext) (response : AppResponse) :
    CookieBoundary keeps request origin restPath context response ↔
      ∀ header ∈ response.setCookies, keeps header = true →
        ∀ cookie, parseSetCookie header = some cookie → cookie.name = [] →
          ∀ pair, readPair cookie.value = some pair → pair.1 ∉ kodyCookieNames := by
  constructor
  · rintro ⟨-, hplants⟩ header hheader hkeeps cookie hparse hname pair hread hkody
    apply hplants
    have htext : cookie.text = cookie.value := if_pos hname
    have hpair : '=' ∈ cookie.value := by
      unfold readPair at hread
      split at hread
      · assumption
      · cases hread
    have hstored : ∀ c ∈ [cookie], ∃ header, parseSetCookie header = some c := by
      intro c hc
      rw [List.mem_singleton.mp hc]
      exact ⟨header, hparse⟩
    refine ⟨[cookie], ?_, pair, ?_, hkody⟩
    · intro c hc
      rw [List.mem_singleton.mp hc]
      exact ⟨header, List.mem_filter.mpr ⟨hheader, letThrough_nameless hparse hname hpair⟩, hkeeps,
        hparse⟩
    · rw [mem_readCookies hstored]
      exact ⟨cookie, List.mem_singleton.mpr rfl, htext ▸ hread⟩
  · intro h
    refine ⟨buildAppRequest_clean request origin restPath context, ?_⟩
    rintro ⟨cookies, hcookies, pair, hpair, hkody⟩
    rw [mem_readCookies fun cookie hcookie =>
      let ⟨header, _, _, hparse⟩ := hcookies cookie hcookie
      ⟨header, hparse⟩] at hpair
    obtain ⟨cookie, hcookie, hread⟩ := hpair
    obtain ⟨header, hheader, hkeeps, hparse⟩ := hcookies cookie hcookie
    obtain ⟨hreturned, hlet⟩ := List.mem_filter.mp hheader
    by_cases hname : cookie.name = []
    · have htext : cookie.text = cookie.value := if_pos hname
      rw [htext] at hread
      exact h header hreturned hkeeps cookie hparse hname pair hread hkody
    · have hmark := (setCookiePair_marks header).1
      rw [parseSetCookie_some hparse] at hmark
      rw [readPair_named hname hmark hread] at hkody
      exact letThrough_named hlet hparse hname hkody

/-! ### A nameless session -/

/-- A response that sets a cookie without a name, whose value is a session of Kody's. -/
def forged : AppResponse where
  status := 200
  statusText := "OK"
  headers := []
  setCookies := ["=kody_app_session=forged; Path=/"]
  body := none

def plainRequest : WebRequest where
  method := "GET"
  url := ⟨"https://apps.example/", "https://apps.example", "https:", [], [], "apps.example", [], "/",
    [], []⟩
  headers := []
  body := []

def notesContext : AppRequestContext :=
  ⟨"app_1", "notes", "1.0.0", "https://apps.example/u/user_a/packages/notes",
    "/u/user_a/packages/notes", "/u/user_a/packages/notes/_assets"⟩

/-- A nameless cookie is let through, stored, and sent as one of Kody's. -/
theorem planted :
    ¬CookieBoundary (fun _ => true) plainRequest "https://apps.example" "/" notesContext forged := by
  rintro ⟨-, hplants⟩
  apply hplants
  refine ⟨[⟨[], "kody_app_session=forged"⟩], ?_, ("kody_app_session", "forged"), ?_, ?_⟩
  · intro cookie hcookie
    rw [List.mem_singleton.mp hcookie]
    exact ⟨"=kody_app_session=forged; Path=/", by decide, rfl, by decide⟩
  · decide
  · decide

end KodyCelld.Apps
