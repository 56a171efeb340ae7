import KodyCelld.Lib.Json
import KodyCelld.Lib.Url
import KodyCelld.OAuth.Concurrency
import KodyCelld.Secrets.HostPolicy

namespace KodyCelld.OAuth

open KodyCelld.Lib KodyCelld.Secrets

/-!
# What clients may register and ask for (`oauth/protocol.ts`)

* `parseClientRegistration` — the metadata of a new client, with `validateRedirectUri`;
* `redirectUriMatches` — the redirect URI of an authorize request against the registered ones;
* `parseAuthorizeRequest` — the query of an authorize request.

`print` is `String(value)` of a JSON value, for the text of an error.
-/

/-! ### Registration -/

def mcpResourcePath : Text := "/mcp"

def oauthScopes : List Text := ["openid", "profile", "email"]

def maxRedirectUris : ℕ := 16

def maxClientNameLength : ℕ := 120

def invalidClientMetadata (description : Text) : OAuthError :=
  .protocol "invalid_client_metadata" description

def invalidRedirectUri (description : Text) : OAuthError :=
  .protocol "invalid_redirect_uri" description

/-- `value.slice(0, max)`; of a character that is cut in two, nothing is left. -/
def cutTo : (max : ℕ) → Text → Text
  | _, [] => []
  | max, c :: rest =>
    let units := if 0x10000 ≤ c.toNat then 2 else 1
    if max < units then [] else c :: cutTo (max - units) rest

def readString (value : Option Json) (field : Text) (max : ℕ := 512) :
    Except OAuthError (Option Text) :=
  match value with
  | none => .ok none
  | some .null => .ok none
  | some (.str text) => .ok (some (cutTo max text))
  | some _ => .error (invalidClientMetadata ("\"" ++ field ++ "\" must be a string."))

def readHttpUrl (u : UrlParser) (value : Option Json) (field : Text) :
    Except OAuthError (Option Text) := do
  match ← readString value field with
  | none => return none
  | some [] => return none
  | some raw =>
    match u.parse raw with
    | none => .error (invalidClientMetadata ("\"" ++ field ++ "\" must be an absolute URL."))
    | some url =>
      if url.protocol ≠ "https:" ∧ url.protocol ≠ "http:" then
        .error (invalidClientMetadata ("\"" ++ field ++ "\" must be http(s)."))
      else return some url.href

/-- Redirect URIs must be absolute and fragment-free; http is only allowed for loopback. -/
def validateRedirectUri (u : UrlParser) (value : Json) : Except OAuthError Text :=
  match value with
  | .str text =>
    if 2048 < utf16Length text then .error (invalidRedirectUri "redirect_uris must be strings.")
    else match u.parse text with
      | none => .error (invalidRedirectUri ("\"" ++ text ++ "\" is not an absolute URL."))
      | some url =>
        if url.hash ≠ [] then
          .error (invalidRedirectUri "redirect_uris may not contain a fragment.")
        else if url.username ≠ [] ∨ url.password ≠ [] then
          .error (invalidRedirectUri "redirect_uris may not embed credentials.")
        else if url.protocol = "http:" ∧ isLoopbackHost url.hostname = false then
          .error (invalidRedirectUri "http redirect_uris are only allowed for loopback hosts.")
        else if url.protocol = "javascript:" ∨ url.protocol = "data:" ∨ url.protocol = "file:" then
          .error (invalidRedirectUri ("\"" ++ url.protocol ++ "\" redirect_uris are refused."))
        else .ok url.href
  | _ => .error (invalidRedirectUri "redirect_uris must be strings.")

/-- `tokenEndpointAuthMethods.includes(method)` -/
def authMethodOf : Json → Option TokenEndpointAuthMethod
  | .str text =>
    if text = "none" then some .none
    else if text = "client_secret_post" then some .post
    else if text = "client_secret_basic" then some .basic
    else none
  | _ => none

def grantTypeOf : Json → Option Text
  | .str text => if text = "authorization_code" ∨ text = "refresh_token" then some text else none
  | _ => none

def grantTypesOf (print : Json → Text) : Option Json → Except OAuthError (List Text)
  | some (.arr grants) => grants.mapM fun grant =>
    match grantTypeOf grant with
    | some text => .ok text
    | none => .error (invalidClientMetadata ("Unsupported grant_type \"" ++ print grant ++ "\"."))
  | _ => .ok ["authorization_code", "refresh_token"]

/-- Whether only the response type `code` is listed, where types are listed. -/
def onlyCode : Option Json → Bool
  | some (.arr types) => types.all fun type =>
    match type with
    | .str text => decide (text = "code")
    | _ => false
  | _ => true

/-- The members of a registration in the order in which they are read. -/
def parseClientRegistration (u : UrlParser) (print : Json → Text) (body : Json) :
    Except OAuthError ClientRegistration := do
  match body with
  | .obj metadata =>
    match Json.member metadata "redirect_uris" with
    | some (.arr entries) =>
      if entries = [] then .error (invalidRedirectUri "At least one redirect_uri is required.")
      else if maxRedirectUris < entries.length then
        .error (invalidRedirectUri ("At most " ++ natText maxRedirectUris ++ " redirect_uris."))
      else
        let redirectUris ← entries.mapM (validateRedirectUri u)
        match authMethodOf (Json.orElse (Json.member metadata "token_endpoint_auth_method")
            (.str "none")) with
        | none => .error (invalidClientMetadata
            "token_endpoint_auth_method must be one of none, client_secret_post, client_secret_basic.")
        | some method =>
          let grantTypes ← grantTypesOf print (Json.member metadata "grant_types")
          if ("authorization_code" : Text) ∉ grantTypes then
            .error (invalidClientMetadata "grant_types must include authorization_code.")
          else
            if onlyCode (Json.member metadata "response_types") = false then
              .error (invalidClientMetadata "Only response_type \"code\" is supported.")
            else
              let name ← readString (Json.member metadata "client_name") "client_name"
                maxClientNameLength
              let clientName := (name.map trim).getD []
              -- the stored text of a redirect URI parses again
              let hostname := ((u.parse (redirectUris.headD [])).map Url.hostname).getD []
              let clientUri ← readHttpUrl u (Json.member metadata "client_uri") "client_uri"
              let logoUri ← readHttpUrl u (Json.member metadata "logo_uri") "logo_uri"
              let softwareId ← readString (Json.member metadata "software_id") "software_id" 120
              let softwareVersion ← readString (Json.member metadata "software_version")
                "software_version" 60
              return {
                clientName :=
                  if clientName ≠ [] then clientName
                  else if hostname ≠ [] then hostname
                  else "MCP client"
                redirectUris := redirectUris
                tokenEndpointAuthMethod := method
                grantTypes := grantTypes
                clientUri := clientUri
                logoUri := logoUri
                softwareId := softwareId
                softwareVersion := softwareVersion }
    | _ => .error (invalidRedirectUri "At least one redirect_uri is required.")
  | _ => .error (invalidClientMetadata "Client metadata must be a JSON object.")

/-! ### Authorization -/

/-- The registered URI is http on the same loopback host, with the same path and query. -/
def loopbackMatches (u : UrlParser) (req : Url) (entry : Text) : Bool :=
  match u.parse entry with
  | none => false
  | some reg =>
    decide (reg.protocol = "http:") && isLoopbackHost reg.hostname &&
      decide (reg.hostname = req.hostname) && decide (reg.pathname = req.pathname) &&
      decide (reg.search = req.search)

/-- Exact match, except loopback http where the port may vary between runs. -/
def redirectUriMatches (u : UrlParser) (requested : Text) (registered : List Text) : Bool :=
  if requested ∈ registered then true
  else match u.parse requested with
    | none => false
    | some req =>
      if req.protocol ≠ "http:" ∨ isLoopbackHost req.hostname = false then false
      else registered.any (loopbackMatches u req)

/-- `params.get(name)` -/
def paramOf (params : List (Text × Text)) (name : Text) : Option Text :=
  (params.find? fun param => param.1 = name).map Prod.snd

structure AuthorizeRequest where
  clientId : Text
  redirectUri : Text
  codeChallenge : Text
  state : Option Text
  scope : Text
  resource : Text
  deriving DecidableEq, Repr

/-- `/^[A-Za-z0-9._~-]{43,128}$/` -/
def pkceText (text : Text) : Bool :=
  decide (43 ≤ text.length) && decide (text.length ≤ 128) && text.all isVerifierChar

/-- Unknown scopes are dropped. -/
def normalizeScope (raw : Option Text) : Text :=
  let requested := splitSpaces (raw.getD [])
  [' '].intercalate (oauthScopes.filter fun scope => decide (scope ∈ requested))

/-- The redirect URI of the request; a client with one URI may leave it out. -/
def requestedRedirect (params : List (Text × Text)) (client : ClientRow) : Option Text :=
  match paramOf params "redirect_uri" with
  | some text => some text
  | none =>
    match client.registration.redirectUris with
    | [only] => some only
    | _ => none

/-- `client` is the client that the store has for the `client_id` of the query. -/
def parseAuthorizeRequest (u : UrlParser) (params : List (Text × Text)) (client : Option ClientRow)
    (issuer : Text) : Except OAuthError AuthorizeRequest :=
  let resource := issuer ++ mcpResourcePath
  match paramOf params "client_id" with
  | none => .error (.protocol "invalid_request" "client_id is required.")
  | some [] => .error (.protocol "invalid_request" "client_id is required.")
  | some clientId =>
    match client with
    | none => .error (.protocol "invalid_client"
        "Unknown client_id. Register with /oauth/register first.")
    | some client =>
      let redirectUri := (requestedRedirect params client).getD []
      if redirectUri = [] ∨
          redirectUriMatches u redirectUri client.registration.redirectUris = false then
        .error (.protocol "invalid_request"
          "redirect_uri does not match the registered redirect URIs.")
      else if paramOf params "response_type" ≠ some "code" then
        .error (.protocol "unsupported_response_type" "Only response_type=code is supported.")
      else
        let codeChallenge := (paramOf params "code_challenge").getD []
        if pkceText codeChallenge = false then
          .error (.protocol "invalid_request" "PKCE is required: send a code_challenge (S256).")
        else if (paramOf params "code_challenge_method").getD "S256" ≠ "S256" then
          .error (.protocol "invalid_request" "Only code_challenge_method=S256 is supported.")
        else
          let requested := (paramOf params "resource").getD resource
          if requested ≠ resource ∧ requested ≠ issuer then
            .error (.protocol "invalid_target"
              ("This server only issues tokens for " ++ resource ++ "."))
          else
            let state := paramOf params "state"
            if state.any fun text => decide (1024 < utf16Length text) then
              .error (.protocol "invalid_request" "state is too long.")
            else .ok ⟨clientId, redirectUri, codeChallenge, state,
              normalizeScope (paramOf params "scope"), resource⟩

end KodyCelld.OAuth
