import KodyCelld.Errors
import KodyCelld.Lib.Url
import KodyCelld.Secrets.HostPolicy

namespace KodyCelld.Mcp

open KodyCelld.Lib KodyCelld.Execute KodyCelld.Secrets

/-!
# Requests to MCP servers (`mcp-client/policy.ts`, `mcp-client/resolve.ts`, `mcp-client/client.ts`)

`createPolicyFetch` follows redirects by hand and checks every hop.

* `assertMcpUrl`, `assertResolvedHostAllowed` — the checks of one hop;
* `policyHop`, `policyFetch` — one round of the loop, and the loop;
* `policyHop_follow` — what has happened where a redirect is followed;
* `policyFetch_kept` — the policy, for every request and every sequence of answers.

The URL parser and the network are parameters.  Of the configuration only the private hosts matter
here; the body of an answer, the signal and the timeout are left out.
-/

/-! ### The checks of one hop -/

structure McpConfig where
  allowPrivateHosts : List Text
  deriving DecidableEq, Repr

/-- The URL policy for every hop. -/
def assertMcpUrl (u : UrlParser) (raw : Text) (config : McpConfig) : Except Thrown Url :=
  match u.parse raw with
  | none => .error (.kody "invalid_args" ("\"" ++ raw ++ "\" is not a valid URL."))
  | some url =>
    if url.protocol ≠ "http:" ∧ url.protocol ≠ "https:" then
      .error (.kody "invalid_args" "MCP server URLs must use http or https.")
    else if url.username ≠ [] ∨ url.password ≠ [] then
      .error (.kody "invalid_args"
        "MCP server URLs must not contain credentials; pass bearerToken instead.")
    else
      let url := url.withoutHash
      let host := lower url.hostname
      if hostMatchesAllowlist host config.allowPrivateHosts then .ok url
      else if isPrivateHostname host then
        .error (.kody "mcp_host_not_allowed" ("\"" ++ host ++ "\" is a loopback/private host. " ++
          "Add it (or its CIDR range) to KODY_PRIVATE_HOSTS on the server to use it.") 403)
      else if url.protocol = "http:" then
        .error (.kody "mcp_host_not_allowed" ("Plain http is only allowed for hosts in " ++
          "KODY_PRIVATE_HOSTS; use https for \"" ++ host ++ "\".") 403)
      else .ok url

inductive DnsType where
  | A | AAAA
  deriving DecidableEq, Repr

/-- A record of an answer: its type number and its data. -/
structure DnsRecord where
  type : ℕ
  data : Text
  deriving DecidableEq, Repr

/-- An answer of the resolver, or why there is none. -/
abbrev DnsAnswer : Type := Except Text (List DnsRecord)

/-- The records of the wanted type. -/
def lookup (type : DnsType) (answer : DnsAnswer) : Except Text (List Text) := do
  let records ← answer
  let wanted := match type with
    | .A => 1
    | .AAAA => 28
  return (records.filter fun record => record.type = wanted).map fun record => lower record.data

/-- Both lookups of a host; an empty answer is a failed one. -/
def resolveAddresses (dns : DnsType → DnsAnswer) : Except Text (List Text) := do
  let a ← lookup .A (dns .A)
  let aaaa ← lookup .AAAA (dns .AAAA)
  let addresses := a ++ aaaa
  if addresses = [] then .error "no A/AAAA records" else return addresses

def refuse (message : Text) : Thrown := .kody "mcp_host_not_allowed" message 403

/-- A private address that the operator has not listed. -/
def refusedAddress (config : McpConfig) (address : Text) : Bool :=
  let literal := if ':' ∈ address then '[' :: address ++ "]" else address
  isPrivateHostname literal && !hostMatchesAllowlist address config.allowPrivateHosts

def assertAddresses (config : McpConfig) (host : Text) (addresses : List Text) :
    Except Thrown Unit :=
  match addresses.find? (refusedAddress config) with
  | none => .ok ()
  | some address => .error (refuse ("\"" ++ host ++ "\" resolves to private address " ++ address ++
      ". Add the address or its range to KODY_PRIVATE_HOSTS to allow it."))

/-- The answers that one policy fetch remembers, by host. -/
abbrev DnsMemo : Type := List (Text × List Text)

def DnsMemo.get (memo : DnsMemo) (host : Text) : Option (List Text) :=
  (memo.find? fun entry => entry.1 = host).map Prod.snd

def resolvedHost (url : Url) : Text := stripBrackets (lower url.hostname)

/-- The resolved-IP check before a hop.  A lookup that failed is not remembered. -/
def assertResolvedHostAllowed (url : Url) (config : McpConfig) (dns : Text → DnsType → DnsAnswer)
    (memo : DnsMemo) : Except Thrown Unit × DnsMemo :=
  let host := resolvedHost url
  if (parseIpLiteral host).isSome then (.ok (), memo)
  else if hostMatchesAllowlist host config.allowPrivateHosts then (.ok (), memo)
  else match memo.get host with
    | some addresses => (assertAddresses config host addresses, memo)
    | none =>
      match resolveAddresses (dns host) with
      | .error message => (.error (refuse ("Could not resolve \"" ++ host ++
          "\" through KODY_DNS_RESOLVER_URL (" ++ message ++ ").")), memo)
      | .ok addresses => (assertAddresses config host addresses, (host, addresses) :: memo)

/-! ### Requests -/

/-- Header names in lower case, each once. -/
abbrev Headers : Type := List (Text × Text)

def Headers.get (headers : Headers) (name : Text) : Option Text :=
  (headers.find? fun header => header.1 = name).map Prod.snd

def Headers.delete (headers : Headers) (name : Text) : Headers :=
  headers.filter fun header => header.1 ≠ name

def Headers.set (headers : Headers) (name value : Text) : Headers :=
  headers.delete name ++ [(name, value)]

theorem Headers.get_delete (headers : Headers) (name : Text) :
    (headers.delete name).get name = none := by
  unfold Headers.get Headers.delete
  rw [Option.map_eq_none_iff, List.find?_eq_none]
  intro header hheader
  have hne := (List.mem_filter.mp hheader).2
  simpa using hne

structure RequestInit where
  method : Option Text
  headers : Headers
  body : Option Text
  deriving DecidableEq, Repr

/-- `RequestInfo | URL`: a URL, or a request of which only the URL and the method are read. -/
inductive RequestInfo where
  | url (text : Text)
  | request (text method : Text)
  deriving DecidableEq, Repr

def RequestInfo.text : RequestInfo → Text
  | .url text => text
  | .request text _ => text

/-- `(init.method ?? input.method ?? 'GET').toUpperCase()` -/
def methodOf (input : RequestInfo) (init : RequestInit) : Text :=
  let method := match init.method, input with
    | some method, _ => method
    | none, .request _ method => method
    | none, .url _ => "GET"
  method.map Char.toUpper

/-- What `base` is called with; `redirect` is always `manual`. -/
structure SentRequest where
  url : Text
  method : Option Text
  headers : Headers
  body : Option Text
  deriving DecidableEq, Repr

structure Response where
  status : ℕ
  location : Option Text
  wwwAuthenticate : Option Text
  deriving DecidableEq, Repr

structure PolicyFetchOptions where
  authorization : Option Text
  strictRedirects : Bool
  deriving DecidableEq, Repr

/-- What the network answers at each hop. -/
structure Network where
  dns : ℕ → Text → DnsType → DnsAnswer
  respond : ℕ → Except Thrown Response

/-! ### The loop -/

def maxRedirects : ℕ := 5

/-- What does not change from hop to hop. -/
structure PolicyRequest where
  config : McpConfig
  options : PolicyFetchOptions
  init : RequestInit
  origin : Text
  method : Text
  authorization : Option Text

inductive HopOutcome where
  | returned (response : Response)
  /-- Thrown after `onPolicyError`. -/
  | failed (e : Thrown)
  | threw (e : Thrown)
  | follow (next : Url)
  deriving DecidableEq, Repr

/-- One round: the memo after it, what was sent, the challenge that was reported. -/
structure Hop where
  memo : DnsMemo
  sent : Option SentRequest
  challenge : Option Text
  outcome : HopOutcome
  deriving DecidableEq, Repr

/-- The headers of a hop: the credential goes to the first origin only. -/
def hopHeaders (r : PolicyRequest) (url : Url) : Headers :=
  match r.authorization with
  | some authorization =>
    if authorization ≠ [] ∧ url.origin = r.origin then
      r.init.headers.set "authorization" authorization
    else r.init.headers.delete "authorization"
  | none => r.init.headers.delete "authorization"

/-- Whether strict redirects stop at this one. -/
def strictRefuses (r : PolicyRequest) (url next : Url) (status : ℕ) : Bool :=
  r.options.strictRedirects && decide (r.method ≠ "GET") && decide (r.method ≠ "HEAD") &&
    (decide (next.origin ≠ url.origin) || (decide (status ≠ 307) && decide (status ≠ 308)))

/-- What follows from an answer: the location of a redirect is resolved against the hop's URL. -/
def afterResponse (u : UrlParser) (r : PolicyRequest) (hop : ℕ) (url : Url) (response : Response) :
    HopOutcome :=
  match response.location with
  | none => .returned response
  | some location =>
    if response.status < 300 ∨ 400 ≤ response.status ∨ location = [] then .returned response
    else if maxRedirects ≤ hop then
      .failed (.kody "mcp_call_failed"
        ("MCP server redirected more than " ++ natText maxRedirects ++ " times.") 502)
    else match u.resolve location url with
      | none => .threw (.error "Invalid URL")
      | some next =>
        if strictRefuses r url next response.status then
          .failed (.kody "mcp_call_failed" ("OAuth " ++ r.method ++ " to " ++ url.origin ++
            " was redirected (" ++ natText response.status ++ ") to " ++ next.origin ++
            "; only same-origin 307/308 redirects are followed.") 502)
        else .follow next

def policyHop (u : UrlParser) (net : Network) (r : PolicyRequest) (hop : ℕ) (url : Url)
    (memo : DnsMemo) : Hop :=
  match assertMcpUrl u url.href r.config with
  | .error e => ⟨memo, none, none, .failed e⟩
  | .ok url =>
    match assertResolvedHostAllowed url r.config (net.dns hop) memo with
    | (.error e, memo) => ⟨memo, none, none, .failed e⟩
    | (.ok (), memo) =>
      let sent : SentRequest := ⟨url.href, r.init.method, hopHeaders r url, r.init.body⟩
      match net.respond hop with
      | .error e => ⟨memo, some sent, none, .threw e⟩
      | .ok response =>
        let challenge := if response.status = 401 then
            response.wwwAuthenticate.filter fun text => !text.isEmpty
          else none
        ⟨memo, some sent, challenge, afterResponse u r hop url response⟩

/-- What a fetch did: the requests it sent, in order, and how it ended. -/
structure FetchRun where
  sends : List SentRequest
  challenges : List Text
  memo : DnsMemo
  outcome : HopOutcome
  deriving DecidableEq, Repr

/-- `for (let hop = 0; ; hop++)`; `none` where the fuel does not suffice. -/
def policyLoop (u : UrlParser) (net : Network) (r : PolicyRequest) :
    (fuel hop : ℕ) → Url → DnsMemo → Option FetchRun
  | 0, _, _, _ => none
  | fuel + 1, hop, url, memo =>
    let h := policyHop u net r hop url memo
    match h.outcome with
    | .follow next =>
      (policyLoop u net r fuel (hop + 1) next h.memo).map fun rest =>
        { rest with
          sends := h.sent.toList ++ rest.sends
          challenges := h.challenge.toList ++ rest.challenges }
    | outcome => some ⟨h.sent.toList, h.challenge.toList, h.memo, outcome⟩

/-- A call of the function that `createPolicyFetch` returns. -/
def policyFetch (u : UrlParser) (net : Network) (config : McpConfig) (options : PolicyFetchOptions)
    (memo : DnsMemo) (input : RequestInfo) (init : RequestInit) : Option FetchRun :=
  match u.parse input.text with
  | none => some ⟨[], [], memo, .threw (.error "Invalid URL")⟩
  | some url =>
    policyLoop u net
      { config := config
        options := options
        init := init
        origin := url.origin
        method := methodOf input init
        authorization := options.authorization.orElse fun _ => init.headers.get "authorization" }
      (maxRedirects + 1) 0 url memo

/-! ### The policy -/

/-- The addresses of a host that a hop may rely on: the memo had them when the fetch was called, or
    the resolver gave them at this hop or an earlier one. -/
def Answered (net : Network) (memo : DnsMemo) (hop : ℕ) (host : Text) (addresses : List Text) :
    Prop :=
  (host, addresses) ∈ memo ∨
    ∃ earlier ≤ hop, resolveAddresses (net.dns earlier host) = .ok addresses

/-- The host is an address or listed, or every address that was answered for it is public or
    listed. -/
def HostAllowed (net : Network) (config : McpConfig) (memo : DnsMemo) (hop : ℕ) (url : Url) : Prop :=
  (parseIpLiteral (resolvedHost url)).isSome = true ∨
    hostMatchesAllowlist (resolvedHost url) config.allowPrivateHosts = true ∨
    ∃ addresses, Answered net memo hop (resolvedHost url) addresses ∧
      ∀ address ∈ addresses, refusedAddress config address = false

/-- The request goes to a URL of that origin. -/
def GoesTo (u : UrlParser) (origin : Text) (s : SentRequest) : Prop :=
  ∃ url, u.parse s.url = some url ∧ url.origin = origin

/-- The redirect policy, of what one fetch has done. -/
structure PolicyKept (u : UrlParser) (net : Network) (config : McpConfig)
    (options : PolicyFetchOptions) (memo : DnsMemo) (input : RequestInfo) (init : RequestInit)
    (run : FetchRun) : Prop where
  bounded : run.sends.length ≤ maxRedirects + 1
  /-- The URL of each hop passes both checks. -/
  checked : ∀ hop s, run.sends[hop]? = some s → ∃ url, assertMcpUrl u s.url config = .ok url ∧
    url.href = s.url ∧ HostAllowed net config memo hop url
  /-- The credential goes to the first origin only. -/
  authorization : ∀ first, u.parse input.text = some first → ∀ s ∈ run.sends,
    s.headers.get "authorization" ≠ none → GoesTo u first.origin s
  /-- Strict: nothing but a GET or HEAD leaves the first origin, -/
  stays : options.strictRedirects = true → methodOf input init ∉ (["GET", "HEAD"] : List Text) →
    ∀ first, u.parse input.text = some first → ∀ s ∈ run.sends, GoesTo u first.origin s
  /-- or is sent again after anything but 307 and 308. -/
  repeated : options.strictRedirects = true → methodOf input init ∉ (["GET", "HEAD"] : List Text) →
    ∀ hop, hop + 1 < run.sends.length → ∃ response, net.respond hop = .ok response ∧
      (response.status = 307 ∨ response.status = 308)

section
variable {u : UrlParser} {net : Network} {config : McpConfig} {memo : DnsMemo} {r : PolicyRequest}

/-! ### The checks -/

/-- **Inversion.**  A URL that passes is http or https, and only loses its fragment. -/
theorem assertMcpUrl_eq_ok {raw : Text} {url : Url} (h : assertMcpUrl u raw config = .ok url) :
    ∃ parsed, u.parse raw = some parsed ∧ url = parsed.withoutHash ∧
      (parsed.protocol = "http:" ∨ parsed.protocol = "https:") := by
  unfold assertMcpUrl at h
  split at h
  · exact absurd h (by simp)
  rename_i parsed hparse
  dsimp only at h
  refine ⟨parsed, hparse, ?_, ?_⟩
  · split_ifs at h <;> exact (Except.ok.inj h).symm
  · split at h
    · exact absurd h (by simp)
    · rename_i hprotocol
      rwa [not_and_or, not_not, not_not] at hprotocol

/-- A URL that passed passes again. -/
theorem assertMcpUrl_again (hu : u.Lawful) {raw : Text} {url : Url}
    (h : assertMcpUrl u raw config = .ok url) : assertMcpUrl u url.href config = .ok url := by
  obtain ⟨parsed, hparse, rfl, hprotocol⟩ := assertMcpUrl_eq_ok h
  have hagain : u.parse parsed.withoutHash.href = some parsed.withoutHash :=
    hu.fragment raw parsed hparse hprotocol
  unfold assertMcpUrl at h ⊢
  rw [hparse] at h
  rw [hagain]
  dsimp only at h ⊢
  rw [Url.withoutHash_withoutHash]
  exact h

theorem mem_of_get {host : Text} {addresses : List Text} (h : memo.get host = some addresses) :
    (host, addresses) ∈ memo := by
  unfold DnsMemo.get at h
  obtain ⟨entry, hentry, rfl⟩ := Option.map_eq_some_iff.mp h
  have hhost : entry.1 = host := by simpa using List.find?_some hentry
  rw [← hhost]
  exact List.mem_of_find?_eq_some hentry

theorem assertAddresses_ok {host : Text} {addresses : List Text}
    (h : assertAddresses config host addresses = .ok ()) :
    ∀ address ∈ addresses, refusedAddress config address = false := by
  unfold assertAddresses at h
  split at h
  · rename_i hnone
    intro address haddress
    have hnot := List.find?_eq_none.mp hnone address haddress
    rwa [Bool.not_eq_true] at hnot
  · exact absurd h (by simp)

/-- What the memo holds was answered before. -/
def MemoAnswered (net : Network) (memo₀ memo : DnsMemo) (hop : ℕ) : Prop :=
  ∀ host addresses, (host, addresses) ∈ memo → Answered net memo₀ hop host addresses

theorem MemoAnswered.next {memo₀ : DnsMemo} {hop : ℕ} (h : MemoAnswered net memo₀ memo hop) :
    MemoAnswered net memo₀ memo (hop + 1) := by
  intro host addresses hmem
  rcases h host addresses hmem with hold | ⟨earlier, hle, hanswer⟩
  · exact .inl hold
  · exact .inr ⟨earlier, by omega, hanswer⟩

/-- The check of a hop relies on what was answered, and remembers nothing else. -/
theorem assertResolvedHostAllowed_spec {memo₀ memo' : DnsMemo} {hop : ℕ} {url : Url}
    {answer : Except Thrown Unit} (hmemo : MemoAnswered net memo₀ memo hop)
    (h : assertResolvedHostAllowed url config (net.dns hop) memo = (answer, memo')) :
    MemoAnswered net memo₀ memo' hop ∧
      (answer = .ok () → HostAllowed net config memo₀ hop url) := by
  unfold assertResolvedHostAllowed at h
  dsimp only at h
  split at h
  · rename_i hliteral
    obtain ⟨-, rfl⟩ := Prod.mk.inj h
    exact ⟨hmemo, fun _ => .inl hliteral⟩
  · split at h
    · rename_i hlisted
      obtain ⟨-, rfl⟩ := Prod.mk.inj h
      exact ⟨hmemo, fun _ => .inr (.inl hlisted)⟩
    · split at h
      · rename_i addresses hget
        obtain ⟨rfl, rfl⟩ := Prod.mk.inj h
        refine ⟨hmemo, fun hok => .inr (.inr ⟨addresses, ?_, assertAddresses_ok hok⟩)⟩
        exact hmemo _ _ (mem_of_get hget)
      · split at h
        · obtain ⟨rfl, rfl⟩ := Prod.mk.inj h
          exact ⟨hmemo, fun hok => absurd hok (by simp)⟩
        · rename_i addresses hresolve
          obtain ⟨rfl, rfl⟩ := Prod.mk.inj h
          have hnew : Answered net memo₀ hop (resolvedHost url) addresses :=
            .inr ⟨hop, le_rfl, hresolve⟩
          constructor
          · intro host addresses' hmem
            rcases List.mem_cons.mp hmem with heq | hold
            · obtain ⟨rfl, rfl⟩ := Prod.mk.inj heq
              exact hnew
            · exact hmemo _ _ hold
          · intro hok
            exact .inr (.inr ⟨addresses, hnew, assertAddresses_ok hok⟩)

/-! ### One hop -/

/-- The credential is among the headers of a hop on the first origin only. -/
theorem hopHeaders_authorization {url : Url}
    (h : (hopHeaders r url).get "authorization" ≠ none) : url.origin = r.origin := by
  unfold hopHeaders at h
  split at h
  · split at h
    · rename_i hsame
      exact hsame.2
    · exact absurd (Headers.get_delete _ _) h
  · exact absurd (Headers.get_delete _ _) h

/-- Strict redirects of anything but GET and HEAD. -/
def Strict (r : PolicyRequest) : Prop :=
  r.options.strictRedirects = true ∧ r.method ∉ (["GET", "HEAD"] : List Text)

theorem strictRefuses_false {url next : Url} {status : ℕ}
    (h : strictRefuses r url next status = false) (hstrict : Strict r) :
    next.origin = url.origin ∧ (status = 307 ∨ status = 308) := by
  obtain ⟨hon, hmethod⟩ := hstrict
  rw [List.mem_cons, List.mem_singleton, not_or] at hmethod
  unfold strictRefuses at h
  rw [hon, decide_eq_true hmethod.1, decide_eq_true hmethod.2, Bool.true_and, Bool.true_and,
    Bool.true_and, Bool.or_eq_false_iff, Bool.and_eq_false_iff, decide_eq_false_iff_not,
    decide_eq_false_iff_not, decide_eq_false_iff_not, not_not, not_not, not_not] at h
  exact h

/-- **Following.**  A redirect is followed before the last hop only, to a URL that its location
    resolves to; strictly, to the same origin after a 307 or 308. -/
theorem afterResponse_follow {hop : ℕ} {url next : Url} {response : Response}
    (h : afterResponse u r hop url response = .follow next) :
    hop < maxRedirects ∧ (∃ location, u.resolve location url = some next) ∧
      (Strict r → next.origin = url.origin ∧ (response.status = 307 ∨ response.status = 308)) := by
  unfold afterResponse at h
  split at h
  · exact absurd h (by simp)
  rename_i location hlocation
  split at h
  · exact absurd h (by simp)
  split at h
  · exact absurd h (by simp)
  rename_i hhop
  split at h
  · exact absurd h (by simp)
  rename_i next' hnext
  split at h
  · exact absurd h (by simp)
  rename_i hrefuses
  rw [Bool.not_eq_true] at hrefuses
  obtain rfl := HopOutcome.follow.inj h
  exact ⟨by omega, ⟨location, hnext⟩, strictRefuses_false hrefuses⟩

/-- What one hop has done: its request, if it sent one, passed both checks and carries the
    credential to the first origin only. -/
structure HopKept (u : UrlParser) (net : Network) (r : PolicyRequest) (memo₀ : DnsMemo) (hop : ℕ)
    (url : Url) (h : Hop) : Prop where
  memo : MemoAnswered net memo₀ h.memo hop
  sent : ∀ s, h.sent = some s → ∃ asserted, assertMcpUrl u s.url r.config = .ok asserted ∧
    asserted.href = s.url ∧ HostAllowed net r.config memo₀ hop asserted ∧
    u.parse s.url = some asserted ∧ asserted.origin = url.origin ∧
    (s.headers.get "authorization" ≠ none → asserted.origin = r.origin)
  follow : ∀ next, h.outcome = .follow next → hop < maxRedirects ∧ h.sent ≠ none ∧
    u.parse next.href = some next ∧
    (Strict r → next.origin = url.origin ∧ ∃ response, net.respond hop = .ok response ∧
      (response.status = 307 ∨ response.status = 308))

/-- **Hop lemma.** -/
theorem policyHop_kept (hu : u.Lawful) {memo₀ : DnsMemo} {hop : ℕ} {url : Url}
    (hurl : u.parse url.href = some url) (hmemo : MemoAnswered net memo₀ memo hop) :
    HopKept u net r memo₀ hop url (policyHop u net r hop url memo) := by
  unfold policyHop
  split
  · -- the URL is refused
    refine ⟨hmemo, fun s hs => absurd hs (by simp), fun next hnext => absurd hnext (by simp)⟩
  · rename_i asserted hasserted
    obtain ⟨parsed, hparse, hwithout, hprotocol⟩ := assertMcpUrl_eq_ok hasserted
    obtain rfl : parsed = url := Option.some.inj (hparse.symm.trans hurl)
    have horigin : asserted.origin = parsed.origin := by rw [hwithout, Url.withoutHash_origin]
    have hagain := assertMcpUrl_again hu hasserted
    have hparsed : u.parse asserted.href = some asserted := by
      rw [hwithout]
      exact hu.fragment _ _ hurl hprotocol
    split
    · rename_i e memo' hcheck
      obtain ⟨hmemo', -⟩ := assertResolvedHostAllowed_spec hmemo hcheck
      exact ⟨hmemo', fun s hs => absurd hs (by simp), fun next hnext => absurd hnext (by simp)⟩
    · rename_i memo' hcheck
      obtain ⟨hmemo', hallowed⟩ := assertResolvedHostAllowed_spec hmemo hcheck
      have hsent : ∀ s, some (⟨asserted.href, r.init.method, hopHeaders r asserted, r.init.body⟩ :
          SentRequest) = some s → ∃ asserted, assertMcpUrl u s.url r.config = .ok asserted ∧
          asserted.href = s.url ∧ HostAllowed net r.config memo₀ hop asserted ∧
          u.parse s.url = some asserted ∧ asserted.origin = parsed.origin ∧
          (s.headers.get "authorization" ≠ none → asserted.origin = r.origin) := by
        intro s hs
        obtain rfl := Option.some.inj hs
        exact ⟨asserted, hagain, rfl, hallowed rfl, hparsed, horigin, hopHeaders_authorization⟩
      dsimp only
      split
      · exact ⟨hmemo', hsent, fun next hnext => absurd hnext (by simp)⟩
      · rename_i response hresponse
        refine ⟨hmemo', hsent, fun next hnext => ?_⟩
        obtain ⟨hhop, ⟨location, hresolve⟩, hstrict⟩ := afterResponse_follow hnext
        refine ⟨hhop, by simp, hu.resolves _ _ _ hresolve, fun hs => ?_⟩
        obtain ⟨hsame, hstatus⟩ := hstrict hs
        exact ⟨hsame.trans horigin, response, hresponse, hstatus⟩

/-! ### The loop -/

/-- What the rounds from a hop on have done. -/
structure LoopKept (u : UrlParser) (net : Network) (r : PolicyRequest) (memo₀ : DnsMemo)
    (fuel hop : ℕ) (url : Url) (run : FetchRun) : Prop where
  bounded : run.sends.length ≤ fuel
  checked : ∀ n s, run.sends[n]? = some s → ∃ asserted,
    assertMcpUrl u s.url r.config = .ok asserted ∧ asserted.href = s.url ∧
    HostAllowed net r.config memo₀ (hop + n) asserted
  authorization : ∀ s ∈ run.sends, s.headers.get "authorization" ≠ none → GoesTo u r.origin s
  stays : Strict r → ∀ s ∈ run.sends, GoesTo u url.origin s
  repeated : Strict r → ∀ n, n + 1 < run.sends.length →
    ∃ response, net.respond (hop + n) = .ok response ∧
      (response.status = 307 ∨ response.status = 308)

/-- A loop that ends with this hop. -/
theorem HopKept.last {memo₀ : DnsMemo} {fuel hop : ℕ} {url : Url} {h : Hop}
    (hkept : HopKept u net r memo₀ hop url h) {outcome : HopOutcome} :
    LoopKept u net r memo₀ (fuel + 1) hop url
      ⟨h.sent.toList, h.challenge.toList, h.memo, outcome⟩ := by
  have hlength : h.sent.toList.length ≤ 1 := by
    cases h.sent with
    | none => exact Nat.zero_le 1
    | some s => exact le_rfl
  refine ⟨?_, fun n s hs => ?_, fun s hs hauth => ?_, fun _ s hs => ?_, fun _ n hn => ?_⟩
  · show h.sent.toList.length ≤ fuel + 1
    omega
  · have hn : n = 0 := by
      have hlt : n < h.sent.toList.length := (List.getElem?_eq_some_iff.mp hs).1
      omega
    subst hn
    have hsent : h.sent = some s := Option.mem_toList.mp (List.mem_of_getElem? hs)
    obtain ⟨asserted, hok, hhref, hallowed, -⟩ := hkept.sent s hsent
    exact ⟨asserted, hok, hhref, hallowed⟩
  · obtain ⟨asserted, -, -, -, hparse, -, horigin⟩ := hkept.sent s (Option.mem_toList.mp hs)
    exact ⟨asserted, hparse, horigin hauth⟩
  · obtain ⟨asserted, -, -, -, hparse, horigin, -⟩ := hkept.sent s (Option.mem_toList.mp hs)
    exact ⟨asserted, hparse, horigin⟩
  · have hlt : n + 1 < h.sent.toList.length := hn
    omega

/-- A loop that follows a redirect at this hop. -/
theorem HopKept.cons {memo₀ : DnsMemo} {fuel hop : ℕ} {url next : Url} {h : Hop}
    (hkept : HopKept u net r memo₀ hop url h) (hnext : h.outcome = .follow next) {rest : FetchRun}
    (hrest : LoopKept u net r memo₀ fuel (hop + 1) next rest) :
    LoopKept u net r memo₀ (fuel + 1) hop url
      { rest with
        sends := h.sent.toList ++ rest.sends
        challenges := h.challenge.toList ++ rest.challenges } := by
  obtain ⟨-, hsome, -, hstrict⟩ := hkept.follow next hnext
  obtain ⟨s₀, hs₀⟩ := Option.ne_none_iff_exists'.mp hsome
  obtain ⟨asserted, hok, hhref, hallowed, hparse, horigin, hauth⟩ := hkept.sent s₀ hs₀
  have hsends : h.sent.toList ++ rest.sends = s₀ :: rest.sends := by
    rw [hs₀]
    rfl
  refine ⟨?_, fun n s hs => ?_, fun s hs hcredential => ?_, fun hr s hs => ?_, fun hr n hn => ?_⟩
  · show (h.sent.toList ++ rest.sends).length ≤ fuel + 1
    have hbound := hrest.bounded
    rw [hsends, List.length_cons]
    omega
  · replace hs : (h.sent.toList ++ rest.sends)[n]? = some s := hs
    rw [hsends] at hs
    cases n with
    | zero =>
      obtain rfl : s₀ = s := Option.some.inj hs
      exact ⟨asserted, hok, hhref, hallowed⟩
    | succ n =>
      have hafter := hrest.checked n s hs
      rwa [show hop + 1 + n = hop + (n + 1) by omega] at hafter
  · replace hs : s ∈ h.sent.toList ++ rest.sends := hs
    rw [hsends] at hs
    rcases List.mem_cons.mp hs with rfl | hs
    · exact ⟨asserted, hparse, hauth hcredential⟩
    · exact hrest.authorization s hs hcredential
  · replace hs : s ∈ h.sent.toList ++ rest.sends := hs
    rw [hsends] at hs
    rcases List.mem_cons.mp hs with rfl | hs
    · exact ⟨asserted, hparse, horigin⟩
    · rw [← (hstrict hr).1]
      exact hrest.stays hr s hs
  · replace hn : n + 1 < (h.sent.toList ++ rest.sends).length := hn
    rw [hsends, List.length_cons] at hn
    cases n with
    | zero => exact (hstrict hr).2
    | succ n =>
      have hafter := hrest.repeated hr n (by omega)
      rwa [show hop + 1 + n = hop + (n + 1) by omega] at hafter

/-- **Loop lemma**, by induction on the rounds left: with as many as there are redirects, the loop
    ends, and every round keeps the policy. -/
theorem policyLoop_kept (hu : u.Lawful) {memo₀ : DnsMemo} {fuel hop : ℕ} {url : Url}
    (hfuel : hop + fuel = maxRedirects + 1) (hpos : 0 < fuel) (hurl : u.parse url.href = some url)
    (hmemo : MemoAnswered net memo₀ memo hop) :
    ∃ run, policyLoop u net r fuel hop url memo = some run ∧
      LoopKept u net r memo₀ fuel hop url run := by
  induction fuel generalizing hop url memo with
  | zero => exact absurd hpos (by omega)
  | succ fuel ih =>
    have hkept := policyHop_kept (r := r) hu hurl hmemo
    unfold policyLoop
    dsimp only
    split
    · rename_i next hnext
      -- a redirect is only followed while rounds are left
      obtain ⟨hhop, -, hparse, -⟩ := hkept.follow next hnext
      obtain ⟨rest, hrest, hrestKept⟩ := ih (by omega) (by omega) hparse hkept.memo.next
      rw [hrest]
      exact ⟨_, rfl, hkept.cons hnext hrestKept⟩
    · exact ⟨_, rfl, hkept.last⟩

/-- **The redirect policy**, for every request and every sequence of answers: the fetch ends after at
    most six requests, each of which passed both checks; the credential goes to the first origin
    only; and strictly, nothing but a GET or HEAD is sent to another origin. -/
theorem policyFetch_kept (hu : u.Lawful) (net : Network) (config : McpConfig)
    (options : PolicyFetchOptions) (memo : DnsMemo) (input : RequestInfo) (init : RequestInit) :
    ∃ run, policyFetch u net config options memo input init = some run ∧
      PolicyKept u net config options memo input init run := by
  unfold policyFetch
  cases hinput : u.parse input.text with
  | none =>
    refine ⟨_, rfl, Nat.zero_le _, fun hop s hs => absurd hs (by simp), ?_, ?_, ?_⟩
    · exact fun _ _ s hs => absurd hs List.not_mem_nil
    · exact fun _ _ _ _ s hs => absurd hs List.not_mem_nil
    · exact fun _ _ hop hlt => absurd hlt (by simp)
  | some first =>
    have hmemo : MemoAnswered net memo memo 0 := fun _ _ hmem => .inl hmem
    have hfirst : u.parse first.href = some first := hu.reparses _ _ hinput
    obtain ⟨run, hrun, hkept⟩ := policyLoop_kept
      (r := { config := config
              options := options
              init := init
              origin := first.origin
              method := methodOf input init
              authorization :=
                options.authorization.orElse fun _ => init.headers.get "authorization" })
      hu (show 0 + (maxRedirects + 1) = maxRedirects + 1 by omega) (by omega) hfirst hmemo
    have hsame : ∀ {url}, u.parse input.text = some url → url = first :=
      fun hurl => Option.some.inj (hurl.symm.trans hinput)
    refine ⟨run, hrun, hkept.bounded, fun hop s hs => ?_, fun url hurl s hs hcredential => ?_,
      fun hon hmethod url hurl s hs => ?_, fun hon hmethod hop hlt => ?_⟩
    · obtain ⟨asserted, hok, hhref, hallowed⟩ := hkept.checked hop s hs
      rw [Nat.zero_add] at hallowed
      exact ⟨asserted, hok, hhref, hallowed⟩
    · rw [hsame hurl]
      exact hkept.authorization s hs hcredential
    · rw [hsame hurl]
      exact hkept.stays ⟨hon, hmethod⟩ s hs
    · have hstatus := hkept.repeated ⟨hon, hmethod⟩ hop hlt
      rwa [Nat.zero_add] at hstatus

end

/-! ### One fetch -/

def serverUrl : Url where
  href := "https://mcp.example.com/a"
  origin := "https://mcp.example.com"
  protocol := "https:"
  username := []
  password := []
  hostname := "mcp.example.com"
  port := []
  pathname := "/a"
  search := []
  hash := []

def otherUrl : Url :=
  { serverUrl with
    href := "https://other.example.com/b"
    origin := "https://other.example.com"
    hostname := "other.example.com"
    pathname := "/b" }

def exampleTable : List (Text × Url) :=
  [("https://mcp.example.com/a", serverUrl), ("https://other.example.com/b", otherUrl)]

theorem exampleTable_lawful : (absoluteParser exampleTable).Lawful :=
  absoluteParser_lawful (by decide) (by decide)

/-- Both hosts have one public address; the first redirects to the second. -/
def exampleNetwork : Network where
  dns := fun _ _ type => match type with
    | .A => .ok [⟨1, "93.184.216.34"⟩]
    | .AAAA => .ok []
  respond := fun hop => match hop with
    | 0 => .ok ⟨302, some "https://other.example.com/b", none⟩
    | _ => .ok ⟨200, none, none⟩

/-- A redirect to another origin is followed without the credential. -/
theorem policyFetch_kept_crossOrigin : ∃ run,
    policyFetch (absoluteParser exampleTable) exampleNetwork ⟨[]⟩ ⟨some "Bearer t", false⟩ []
      (.url "https://mcp.example.com/a") ⟨none, [], none⟩ = some run ∧
    PolicyKept (absoluteParser exampleTable) exampleNetwork ⟨[]⟩ ⟨some "Bearer t", false⟩ []
      (.url "https://mcp.example.com/a") ⟨none, [], none⟩ run ∧
    run.sends.map (fun s => (s.url, s.headers.get "authorization")) =
      ([("https://mcp.example.com/a", some "Bearer t"), ("https://other.example.com/b", none)] :
        List (Text × Option Text)) := by
  obtain ⟨run, hrun, hkept⟩ := policyFetch_kept exampleTable_lawful exampleNetwork ⟨[]⟩
    ⟨some "Bearer t", false⟩ [] (.url "https://mcp.example.com/a") ⟨none, [], none⟩
  have hsends : (policyFetch (absoluteParser exampleTable) exampleNetwork ⟨[]⟩
      ⟨some "Bearer t", false⟩ [] (.url "https://mcp.example.com/a") ⟨none, [], none⟩).map
      (fun run => run.sends.map fun s => (s.url, s.headers.get "authorization")) =
      some ([("https://mcp.example.com/a", some "Bearer t"), ("https://other.example.com/b", none)] :
        List (Text × Option Text)) := by
    decide +kernel
  rw [hrun] at hsends
  exact ⟨run, hrun, hkept, Option.some.inj hsends⟩

end KodyCelld.Mcp
