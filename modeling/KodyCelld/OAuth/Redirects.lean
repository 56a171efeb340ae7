import KodyCelld.OAuth.Protocol

namespace KodyCelld.OAuth

open KodyCelld.Lib KodyCelld.Secrets

/-!
# Redirect URIs at registration and at authorization

Registration stores the serialisation of a URL, the authorize request compares texts, and loopback
http has a comparison of its own.

* `validateRedirectUri_eq_ok`, `redirectUriMatches_iff` — what each side accepts;
* `SameButPort` — two URLs with the same components, up to the port of loopback http;
* `redirects_agree` — when a registered text is accepted at authorization, and when an accepted one
  is a registered one, exactly;
* `strangerOnLoopback` — an accepted text with credentials and a fragment that were never registered.
-/

/-! ### What registration accepts -/

/-- The texts of the redirect URIs that a registration carries. -/
def redirectTexts (body : Json) : List Text :=
  match body with
  | .obj metadata =>
    match Json.member metadata "redirect_uris" with
    | some (.arr entries) => entries.filterMap fun entry => Json.text? (some entry)
    | _ => []
  | _ => []

section
variable {u : UrlParser} {print : Json → Text}

/-- What a validated redirect URI is: the serialisation of a URL without fragment and credentials,
    of an allowed scheme. -/
theorem validateRedirectUri_eq_ok {value : Json} {stored : Text}
    (h : validateRedirectUri u value = .ok stored) : ∃ text url, value = .str text ∧
      u.parse text = some url ∧ stored = url.href ∧ url.hash = [] ∧ url.username = [] ∧
      url.password = [] := by
  unfold validateRedirectUri at h
  split at h
  · rename_i text
    split at h
    · exact absurd h (by simp)
    split at h
    · exact absurd h (by simp)
    rename_i url hparse
    split at h
    · exact absurd h (by simp)
    rename_i hhash
    split at h
    · exact absurd h (by simp)
    rename_i hcredentials
    rw [not_or, not_not, not_not] at hcredentials
    split at h
    · exact absurd h (by simp)
    split at h
    · exact absurd h (by simp)
    exact ⟨text, url, rfl, hparse, (Except.ok.inj h).symm, not_not.mp hhash,
      hcredentials.1, hcredentials.2⟩
  · exact absurd h (by simp)

/-- The redirect URIs of a registration are the validated entries of its metadata, and it may use
    codes. -/
theorem parseClientRegistration_eq_ok {body : Json} {registration : ClientRegistration}
    (h : parseClientRegistration u print body = .ok registration) :
    ("authorization_code" : Text) ∈ registration.grantTypes ∧
      ∃ metadata entries, body = .obj metadata ∧
        Json.member metadata "redirect_uris" = some (.arr entries) ∧
        entries.mapM (validateRedirectUri u) = .ok registration.redirectUris := by
  unfold parseClientRegistration at h
  split at h
  · rename_i metadata
    split at h
    · rename_i entries hentries
      split at h
      · exact absurd h (by simp)
      split at h
      · exact absurd h (by simp)
      obtain ⟨redirectUris, hredirects, h⟩ := bind_eq_ok h
      split at h
      · exact absurd h (by simp)
      obtain ⟨grantTypes, -, h⟩ := bind_eq_ok h
      split at h
      · exact absurd h (by simp)
      rename_i hgrant
      split at h
      · exact absurd h (by simp)
      obtain ⟨name, -, h⟩ := bind_eq_ok h
      extract_lets clientName hostname at h
      obtain ⟨clientUri, -, h⟩ := bind_eq_ok h
      obtain ⟨logoUri, -, h⟩ := bind_eq_ok h
      obtain ⟨softwareId, -, h⟩ := bind_eq_ok h
      obtain ⟨softwareVersion, -, h⟩ := bind_eq_ok h
      rw [← Except.ok.inj h]
      exact ⟨not_not.mp hgrant, metadata, entries, rfl, hentries, hredirects⟩
    · exact absurd h (by simp)
  · exact absurd h (by simp)

/-! ### What authorization accepts -/

/-- The text is of an http URL on the machine itself. -/
def LoopbackHttp (u : UrlParser) (text : Text) : Prop :=
  ∃ url, u.parse text = some url ∧ url.protocol = "http:" ∧ isLoopbackHost url.hostname = true

/-- The registered text is loopback http, and differs from the requested URL in port, credentials
    and fragment at most. -/
def LoopbackMatch (u : UrlParser) (req : Url) (entry : Text) : Prop :=
  ∃ reg, u.parse entry = some reg ∧ reg.protocol = "http:" ∧ isLoopbackHost reg.hostname = true ∧
    reg.hostname = req.hostname ∧ reg.pathname = req.pathname ∧ reg.search = req.search

theorem loopbackMatches_iff {req : Url} {entry : Text} :
    loopbackMatches u req entry = true ↔ LoopbackMatch u req entry := by
  unfold loopbackMatches LoopbackMatch
  cases hparse : u.parse entry with
  | none => simp
  | some reg =>
    simp only [Bool.and_eq_true, decide_eq_true_eq, Option.some.injEq]
    constructor
    · rintro ⟨⟨⟨⟨hprotocol, hloopback⟩, hhost⟩, hpath⟩, hsearch⟩
      exact ⟨reg, rfl, hprotocol, hloopback, hhost, hpath, hsearch⟩
    · rintro ⟨reg', rfl, hprotocol, hloopback, hhost, hpath, hsearch⟩
      exact ⟨⟨⟨⟨hprotocol, hloopback⟩, hhost⟩, hpath⟩, hsearch⟩

/-- A request matches a registered text, or is loopback http and matches one of those. -/
theorem redirectUriMatches_iff {requested : Text} {registered : List Text} :
    redirectUriMatches u requested registered = true ↔ requested ∈ registered ∨
      ∃ req, u.parse requested = some req ∧ req.protocol = "http:" ∧
        isLoopbackHost req.hostname = true ∧ ∃ entry ∈ registered, LoopbackMatch u req entry := by
  unfold redirectUriMatches
  split
  · rename_i hmem
    exact iff_of_true rfl (.inl hmem)
  · rename_i hmem
    constructor
    · intro h
      right
      split at h
      · exact absurd h (by simp)
      rename_i req hparse
      split at h
      · exact absurd h (by simp)
      rename_i hloopback
      rw [not_or, not_not, Bool.not_eq_false] at hloopback
      obtain ⟨entry, hentry, hmatch⟩ := List.any_eq_true.mp h
      exact ⟨req, hparse, hloopback.1, hloopback.2, entry, hentry, loopbackMatches_iff.mp hmatch⟩
    · rintro (hin | ⟨req, hparse, hprotocol, hloopback, entry, hentry, hmatch⟩)
      · exact absurd hin hmem
      · simp only [hparse]
        rw [if_neg (by rw [hprotocol, hloopback]; simp)]
        exact List.any_eq_true.mpr ⟨entry, hentry, loopbackMatches_iff.mpr hmatch⟩

/-! ### Agreement -/

/-- The two URLs have the same scheme, credentials, host, path, query and fragment, and the same
    port unless the registered one is loopback http. -/
structure SameButPort (req reg : Url) : Prop where
  protocol : req.protocol = reg.protocol
  username : req.username = reg.username
  password : req.password = reg.password
  hostname : req.hostname = reg.hostname
  pathname : req.pathname = reg.pathname
  search : req.search = reg.search
  hash : req.hash = reg.hash
  port : req.port = reg.port ∨ (reg.protocol = "http:" ∧ isLoopbackHost reg.hostname = true)

/-- The requested URI is one of the registered ones. -/
def IsRegistered (u : UrlParser) (requested : Text) (registered : List Text) : Prop :=
  ∃ entry ∈ registered, ∃ req reg, u.parse requested = some req ∧ u.parse entry = some reg ∧
    SameButPort req reg

/-- The text is of a URL without credentials and without a fragment. -/
def Bare (u : UrlParser) (text : Text) : Prop :=
  ∃ url, u.parse text = some url ∧ url.username = [] ∧ url.password = [] ∧ url.hash = []

/-- A stored redirect URI parses, to a URL without credentials and fragment, and is its own
    serialisation. -/
theorem stored_normal {entries : List Json} {registered : List Text} (hreparses : u.Reparses)
    (h : entries.mapM (validateRedirectUri u) = .ok registered) {entry : Text}
    (hentry : entry ∈ registered) : Bare u entry ∧ u.Normal entry := by
  obtain ⟨value, -, hvalid⟩ := (mapM_eq_ok h).2 entry hentry
  obtain ⟨text, url, -, hparse, hstored, hhash, husername, hpassword⟩ :=
    validateRedirectUri_eq_ok hvalid
  have hagain : u.parse entry = some url := by
    rw [hstored]
    exact hreparses text url hparse
  exact ⟨⟨url, hagain, husername, hpassword, hhash⟩, ⟨url, hagain, hstored.symm⟩⟩

/-- **Registered texts.**  A text given at registration is accepted at authorization exactly if it
    is in normal form or loopback http. -/
theorem registered_matches {entries : List Json} {registered : List Text} (hreparses : u.Reparses)
    (h : entries.mapM (validateRedirectUri u) = .ok registered) {text : Text}
    (htext : .str text ∈ entries) :
    redirectUriMatches u text registered = true ↔ u.Normal text ∨ LoopbackHttp u text := by
  -- what registration stored for the text
  obtain ⟨stored, hstored, hvalid⟩ := (mapM_eq_ok h).1 _ htext
  obtain ⟨text', url, htext', hparse, hhref, -⟩ := validateRedirectUri_eq_ok hvalid
  obtain rfl : text = text' := Json.str.inj htext'
  have hagain : u.parse stored = some url := by
    rw [hhref]
    exact hreparses text url hparse
  rw [redirectUriMatches_iff]
  constructor
  · rintro (hmem | ⟨req, hreq, hprotocol, hloopback, -⟩)
    · exact .inl (stored_normal hreparses h hmem).2
    · exact .inr ⟨req, hreq, hprotocol, hloopback⟩
  · rintro (⟨url', hparse', hnormal⟩ | ⟨req, hreq, hprotocol, hloopback⟩)
    · left
      have hsame : url' = url := Option.some.inj (hparse'.symm.trans hparse)
      rw [← hnormal, hsame, ← hhref]
      exact hstored
    · right
      have hsame : req = url := Option.some.inj (hreq.symm.trans hparse)
      subst hsame
      refine ⟨req, hreq, hprotocol, hloopback, stored, hstored, ?_⟩
      exact ⟨req, hagain, hprotocol, hloopback, rfl, rfl, rfl⟩

/-- **Accepted texts.**  An accepted redirect URI is a registered one, up to the port of loopback
    http, exactly if it has no credentials and no fragment. -/
theorem accepted_registered {entries : List Json} {registered : List Text} (hreparses : u.Reparses)
    (h : entries.mapM (validateRedirectUri u) = .ok registered) {requested : Text}
    (haccepted : redirectUriMatches u requested registered = true) :
    IsRegistered u requested registered ↔ Bare u requested := by
  constructor
  · -- a registered URI has neither
    intro hregistered
    obtain ⟨entry, hentry, req, reg, hreq, hreg, hsame⟩ := hregistered
    obtain ⟨⟨url, hparse, husername, hpassword, hhash⟩, -⟩ := stored_normal hreparses h hentry
    obtain rfl : reg = url := Option.some.inj (hreg.symm.trans hparse)
    exact ⟨req, hreq, hsame.username.trans husername, hsame.password.trans hpassword,
      hsame.hash.trans hhash⟩
  · intro hbare
    obtain ⟨req, hreq, husername, hpassword, hhash⟩ := hbare
    rcases redirectUriMatches_iff.mp haccepted with hmem | ⟨req', hreq', hprotocol, -, entry, hentry,
      reg, hreg, hregProtocol, hregLoopback, hhost, hpath, hsearch⟩
    · refine ⟨requested, hmem, req, req, hreq, hreq, ?_⟩
      exact ⟨rfl, rfl, rfl, rfl, rfl, rfl, rfl, .inl rfl⟩
    · obtain rfl : req' = req := Option.some.inj (hreq'.symm.trans hreq)
      obtain ⟨⟨url, hparse, hregUsername, hregPassword, hregHash⟩, -⟩ :=
        stored_normal hreparses h hentry
      obtain rfl : reg = url := Option.some.inj (hreg.symm.trans hparse)
      refine ⟨entry, hentry, req', reg, hreq, hreg, ?_⟩
      exact ⟨hprotocol.trans hregProtocol.symm, husername.trans hregUsername.symm,
        hpassword.trans hregPassword.symm, hhost.symm, hpath.symm, hsearch.symm,
        hhash.trans hregHash.symm, .inr ⟨hregProtocol, hregLoopback⟩⟩

/-- **Registration and authorization.**  For every registration that is accepted: which of its texts
    an authorize request may use, and which accepted texts are registered ones. -/
theorem redirects_agree {body : Json} {registration : ClientRegistration} (hreparses : u.Reparses)
    (h : parseClientRegistration u print body = .ok registration) :
    (∀ text ∈ redirectTexts body, redirectUriMatches u text registration.redirectUris = true ↔
      u.Normal text ∨ LoopbackHttp u text) ∧
    ∀ requested, redirectUriMatches u requested registration.redirectUris = true →
      (IsRegistered u requested registration.redirectUris ↔ Bare u requested) := by
  obtain ⟨-, metadata, entries, rfl, hentries, hredirects⟩ := parseClientRegistration_eq_ok h
  constructor
  · intro text htext
    unfold redirectTexts at htext
    simp only [hentries] at htext
    obtain ⟨value, hvalue, hstr⟩ := List.mem_filterMap.mp htext
    have hentry : .str text ∈ entries := by
      cases value with
      | str t => exact Option.some.inj hstr ▸ hvalue
      | _ => exact absurd hstr (by simp [Json.text?])
    exact registered_matches hreparses hredirects hentry
  · intro requested haccepted
    exact accepted_registered hreparses hredirects haccepted

end

/-! ### Examples -/

def httpsUrl : Url where
  href := "https://example.com/cb"
  origin := "https://example.com"
  protocol := "https:"
  username := []
  password := []
  hostname := "example.com"
  port := []
  pathname := "/cb"
  search := []
  hash := []

def loopbackUrl : Url where
  href := "http://127.0.0.1:8080/cb"
  origin := "http://127.0.0.1:8080"
  protocol := "http:"
  username := []
  password := []
  hostname := "127.0.0.1"
  port := "8080"
  pathname := "/cb"
  search := []
  hash := []

def strangerUrl : Url :=
  { loopbackUrl with
    href := "http://user:pw@127.0.0.1:9000/cb#top"
    origin := "http://127.0.0.1:9000"
    username := "user"
    password := "pw"
    port := "9000"
    hash := "#top" }

/-- The URLs of the examples, each as it is given and as it is serialised. -/
def redirectParser : UrlParser := tableParser
  [("https://Example.com/cb", httpsUrl), ("https://example.com/cb", httpsUrl),
    ("http://127.0.0.1:8080/cb", loopbackUrl),
    ("http://user:pw@127.0.0.1:9000/cb#top", strangerUrl)]

theorem redirectParser_reparses : redirectParser.Reparses :=
  tableParser_reparses (by decide)

def registrationOf (texts : List Text) : Json :=
  .obj [("redirect_uris", .arr (texts.map .str))]

/-- What the metadata registers. -/
def registeredUris (texts : List Text) : Option (List Text) :=
  match parseClientRegistration redirectParser (fun _ => []) (registrationOf texts) with
  | .ok registration => some registration.redirectUris
  | .error _ => none

theorem registration_of_uris {texts uris : List Text} (h : registeredUris texts = some uris) :
    ∃ registration, parseClientRegistration redirectParser (fun _ => []) (registrationOf texts) =
      .ok registration ∧ registration.redirectUris = uris := by
  unfold registeredUris at h
  split at h
  · rename_i registration heq
    exact ⟨registration, heq, Option.some.inj h⟩
  · exact absurd h (by simp)

/-- A registration in normal form, and one of loopback http. -/
theorem redirects_agree_normal : ∃ registration,
    parseClientRegistration redirectParser (fun _ => [])
      (registrationOf ["https://example.com/cb", "http://127.0.0.1:8080/cb"]) = .ok registration ∧
    (∀ text ∈ redirectTexts (registrationOf ["https://example.com/cb", "http://127.0.0.1:8080/cb"]),
      redirectUriMatches redirectParser text registration.redirectUris = true ↔
        redirectParser.Normal text ∨ LoopbackHttp redirectParser text) ∧
    ∀ requested, redirectUriMatches redirectParser requested registration.redirectUris = true →
      (IsRegistered redirectParser requested registration.redirectUris ↔
        Bare redirectParser requested) := by
  have huris : registeredUris ["https://example.com/cb", "http://127.0.0.1:8080/cb"] =
      some (["https://example.com/cb", "http://127.0.0.1:8080/cb"] : List Text) := by
    decide +kernel
  obtain ⟨registration, heq, -⟩ := registration_of_uris huris
  exact ⟨registration, heq, redirects_agree redirectParser_reparses heq⟩

/-- **A stranger on loopback.**  Credentials and a fragment that were never registered are accepted
    on loopback http. -/
theorem strangerOnLoopback : ∃ registration,
    parseClientRegistration redirectParser (fun _ => [])
      (registrationOf ["http://127.0.0.1:8080/cb"]) = .ok registration ∧
    redirectUriMatches redirectParser "http://user:pw@127.0.0.1:9000/cb#top"
      registration.redirectUris = true ∧
    ¬ IsRegistered redirectParser "http://user:pw@127.0.0.1:9000/cb#top"
      registration.redirectUris := by
  have huris : registeredUris ["http://127.0.0.1:8080/cb"] =
      some (["http://127.0.0.1:8080/cb"] : List Text) := by
    decide +kernel
  obtain ⟨registration, heq, hstored⟩ := registration_of_uris huris
  refine ⟨registration, heq, ?_, ?_⟩
  · rw [hstored]
    decide +kernel
  · rw [hstored]
    intro hregistered
    obtain ⟨entry, hentry, req, reg, hreq, hreg, hsame⟩ := hregistered
    rw [List.mem_singleton.mp hentry] at hreg
    have hstranger : strangerUrl = req := Option.some.inj hreq
    have hloopback : loopbackUrl = reg := Option.some.inj hreg
    rw [← hstranger, ← hloopback] at hsame
    exact absurd hsame.hash (by decide)

end KodyCelld.OAuth
