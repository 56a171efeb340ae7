import KodyCelld.Errors
import KodyCelld.Lib.References
import KodyCelld.Lib.Texts

namespace KodyCelld.Auth.SigninNext

open KodyCelld.Lib

/-!
# Where a sign-in leads (`web/http.ts`, `web/signin.ts`)

`safeNext` honours a continuation only if it looks like a path; the browser then reads it the way the
URL parser does.

* `safeNext`, `redirect` — the code;
* `handleSignin_location` — every redirect of `/signin` goes to `/setup` or to a `safeNext`;
* `StaysOnSite` — the browser ends up on the public origin;
* `staysOnSite_iff` — which continuations do;
* `tabbed_leaves` — one that does not.
-/

/-! ### The code -/

/-- Whitespace that `Headers` strips from the ends of a value. -/
def isHeaderSpace (c : Char) : Bool := decide (c ∈ ['\t', '\n', '\r', ' '])

/-- A character that may stand in a header: one byte, not NUL and not a line break. -/
def isHeaderChar (c : Char) : Bool :=
  decide (c.toNat ≤ 255) && decide (c ∉ [Char.ofNat 0, '\n', '\r'])

/-- The value `Headers` keeps; it throws on one that no header can carry. -/
def headerValue (value : Text) : Except Thrown Text :=
  let value := (value.dropWhile isHeaderSpace).rdropWhile isHeaderSpace
  if value.all isHeaderChar then .ok value else .error (.error "Invalid header value.")

/-- `redirect`: the `location` of the response. -/
def redirect (location : Text) : Except Thrown Text := headerValue location

/-- `safeNext`; only paths are honoured. -/
def safeNext (value : Option Text) (fallback : Text := "/account") : Text :=
  match value with
  | none => fallback
  | some value =>
    if value = [] ∨ ¬ "/".toList <+: value ∨ "//".toList <+: value ∨ '\\' ∈ value then fallback
    else value

/-- A request to `/signin`, with what the registry and the configuration answer. -/
structure SigninRequest where
  method : Text
  /-- `url.searchParams.get('next')` -/
  next : Option Text
  /-- Whether `readWebSession` finds a session. -/
  session : Bool
  userCount : ℕ
  /-- What `assertSameOrigin` throws, if anything. -/
  crossOrigin : Option Thrown
  /-- The fields of the form. -/
  form : Text → Option Text
  passwordSignin : (email password : Text) → Option Text
  resolveToken : Text → Option Text
  magicLinksAvailable : Bool

/-- What `/signin` answers with. -/
inductive SigninResponse where
  /-- A redirect, and whether it sets a session cookie. -/
  | redirect (location : Text) (signedIn : Bool)
  | page (next : Text) (error : Option Text) (email : Option Text) (status : ℕ)
  deriving DecidableEq

variable (lowerCase : LowerCase)

/-- `finishSignin`, for a user whose cell and session have been made. -/
def finishSignin (next : Text) : Except Thrown SigninResponse :=
  match redirect next with
  | .error e => .error e
  | .ok location => .ok (.redirect location true)

/-- `handleSignin` for the path `/signin`. -/
def handleSignin (request : SigninRequest) : Except Thrown SigninResponse :=
  let next := safeNext request.next
  if request.session ∧ request.method = "GET" then
    match redirect next with
    | .error e => .error e
    | .ok location => .ok (.redirect location false)
  else if request.userCount = 0 then .ok (.redirect "/setup" false)
  else if request.method = "GET" then .ok (.page next none none 200)
  else if request.method ≠ "POST" then
    .error (.kody "method_not_allowed" "GET or POST only." 405)
  else match request.crossOrigin with
  | some e => .error e
  | none =>
    let nextTarget := safeNext (request.form "next")
    let intent := request.form "intent"
    if intent = some ("password" : Text) then
      let email := lowerCase.normalize ((request.form "email").getD [])
      let password := (request.form "password").getD []
      if email = [] ∨ password = [] then
        .ok (.page nextTarget (some "Email and password are required.") (some email) 200)
      else match request.passwordSignin email password with
        | none => .ok (.page nextTarget (some "Wrong email or password.") (some email) 401)
        | some _ => finishSignin nextTarget
    else if intent = some ("token" : Text) then
      let token := trim ((request.form "token").getD [])
      match (if token = [] then none else request.resolveToken token) with
      | none => .ok (.page nextTarget (some "That API token is not valid.") none 401)
      | some _ => finishSignin nextTarget
    else if intent = some ("magic" : Text) then
      if !request.magicLinksAvailable then
        .ok (.page nextTarget
          (some "This server has no outbound email adapter configured.") none 200)
      else .ok (.page nextTarget none none 200)
    else .ok (.page nextTarget (some "Unknown sign-in method.") none 200)

/-- **Where `/signin` redirects to**: the setup page, or a continuation that `safeNext` honours. -/
theorem handleSignin_location {request : SigninRequest} {location : Text} {signedIn : Bool}
    (h : handleSignin lowerCase request = .ok (.redirect location signedIn)) :
    location = "/setup".toList ∨ redirect (safeNext request.next) = .ok location ∨
      redirect (safeNext (request.form "next")) = .ok location := by
  have hfinish : ∀ {next : Text}, finishSignin next = .ok (.redirect location signedIn) →
      redirect next = .ok location := by
    intro next hnext
    unfold finishSignin at hnext
    split at hnext
    · exact absurd hnext (by simp)
    rename_i found hfound
    obtain ⟨rfl, -⟩ := SigninResponse.redirect.inj (Except.ok.inj hnext)
    exact hfound
  unfold handleSignin at h
  dsimp only at h
  split at h
  · split at h
    · exact absurd h (by simp)
    · rename_i found hfound
      obtain ⟨rfl, -⟩ := SigninResponse.redirect.inj (Except.ok.inj h)
      exact .inr (.inl hfound)
  split at h
  · exact .inl (SigninResponse.redirect.inj (Except.ok.inj h)).1.symm
  split at h
  · exact absurd h (by simp)
  split at h
  · exact absurd h (by simp)
  split at h
  · exact absurd h (by simp)
  split at h
  · split at h
    · exact absurd h (by simp)
    · split at h
      · exact absurd h (by simp)
      · exact .inr (.inr (hfinish h))
  split at h
  · split at h
    · exact absurd h (by simp)
    · exact .inr (.inr (hfinish h))
  split at h
  · split at h <;> exact absurd h (by simp)
  · exact absurd h (by simp)

/-! ### The site a browser ends up on -/

variable (site : Site)

/-- **A continuation stays on the site**: whatever URL a browser reaches from the redirect has the
    public origin. -/
def StaysOnSite (value : Option Text) : Prop :=
  ∀ location, redirect (safeNext value) = .ok location →
    ∀ origin, site.resolve location = some origin → origin = site.origin

/-- A slash, one or more tabs, and another slash before the rest. -/
def TabbedSlashes (value rest : Text) : Prop :=
  ∃ tabs, tabs ≠ [] ∧ (∀ c ∈ tabs, c = '\t') ∧ value = '/' :: (tabs ++ '/' :: rest)

/-- The origin that such a continuation names: the parser reads an authority behind the slashes. -/
def namedBy (rest : Text) : Option Text :=
  site.authority ((cleanedEnd rest).dropWhile isSlash)

variable {site}

theorem isControlOrSpace_of_headerSpace {c : Char} (hc : isHeaderSpace c = true) :
    isControlOrSpace c = true := by
  simp only [isHeaderSpace, List.mem_cons, List.not_mem_nil, or_false, decide_eq_true_eq] at hc
  rcases hc with rfl | rfl | rfl | rfl <;> decide

/-- A header value that starts with a slash loses the white space at its end. -/
theorem headerValue_slash (text : Text) :
    headerValue ('/' :: text) =
      if ('/' :: text.rdropWhile isHeaderSpace).all isHeaderChar then
        .ok ('/' :: text.rdropWhile isHeaderSpace)
      else .error (.error "Invalid header value.") := by
  have hslash : isHeaderSpace '/' = false := by decide
  unfold headerValue
  rw [List.dropWhile_cons_of_neg (by rw [hslash]; decide), rdropWhile_cons_of_neg hslash]

/-- Between the slashes of a header value only tabs can hide. -/
theorem tab_of_header {before rest : Text} (hbefore : ∀ d ∈ before, isTabOrNewline d = true)
    (hvalid : ('/' :: (before ++ '/' :: rest).rdropWhile isHeaderSpace).all isHeaderChar = true) :
    ∀ d ∈ before, d = '\t' := by
  intro d hd
  rw [rdropWhile_append_cons (by decide)] at hvalid
  have hchar : isHeaderChar d = true :=
    List.all_eq_true.mp hvalid d (List.mem_cons_of_mem _ (List.mem_append_left _ hd))
  have htab := hbefore d hd
  simp only [isTabOrNewline, List.mem_cons, List.not_mem_nil, or_false, decide_eq_true_eq] at htab
  rcases htab with rfl | rfl | rfl
  · rfl
  · exact absurd hchar (by decide)
  · exact absurd hchar (by decide)

/-- **Which continuations stay.**  A continuation stays on the site exactly if it is not a header
    value of the form slash, tabs, slash whose rest names another origin. -/
theorem staysOnSite_iff (site : Site) (value : Option Text) :
    StaysOnSite site value ↔
      ∀ text rest, value = some text → TabbedSlashes text rest → '\\' ∉ text →
        (∃ kept, headerValue text = .ok kept) → ∀ origin, namedBy site rest = some origin →
          origin = site.origin := by
  have hresolve : ∀ text : Text, site.resolve ('/' :: text.rdropWhile isHeaderSpace) =
      site.resolve ('/' :: text) := by
    intro text
    unfold Site.resolve
    rw [cleaned_slash, cleaned_slash,
      cleanedEnd_rdropWhile fun c => isControlOrSpace_of_headerSpace]
  constructor
  · -- such a continuation is honoured, and the parser reads an authority behind its slashes
    rintro hstays text rest rfl ⟨tabs, hne, htabs, rfl⟩ hbackslash ⟨kept, hkept⟩ origin horigin
    have htab : ∀ d ∈ tabs, isTabOrNewline d = true := fun d hd => htabs d hd ▸ by decide
    have hsafe : safeNext (some ('/' :: (tabs ++ '/' :: rest))) = '/' :: (tabs ++ '/' :: rest) := by
      unfold safeNext
      refine if_neg ?_
      rintro (h | h | h | h)
      · exact absurd h (List.cons_ne_nil _ _)
      · exact h ⟨_, rfl⟩
      · obtain ⟨more, hmore⟩ := h
        cases tabs with
        | nil => exact hne rfl
        | cons d tabs =>
          have hd : '/' = d := (List.cons.inj (List.cons.inj hmore).2).1
          exact absurd (hd.trans (htabs d List.mem_cons_self)) (by decide)
      · exact hbackslash h
    refine hstays kept (by rw [hsafe]; exact hkept) origin ?_
    rw [headerValue_slash] at hkept
    split at hkept
    · rw [← Except.ok.inj hkept, hresolve,
        Site.resolve_authority (cleanedEnd_append_cons (by decide) htab rest) (by decide),
        List.dropWhile_cons_of_pos (by decide)]
      exact horigin
    · exact absurd hkept (by simp)
  · intro hcond location hlocation origin horigin
    -- the fallback is a path
    have hfallback : redirect ("/account" : Text) = .ok location → origin = site.origin := by
      intro hredirect
      obtain rfl : ("/account" : Text) = location := Except.ok.inj
        ((show redirect ("/account" : Text) = .ok "/account" by decide).symm.trans hredirect)
      have hpath : site.resolve ("/account" : Text) = some site.origin :=
        Site.resolve_path fun c hc => by
          obtain rfl : 'a' = c := Option.some.inj hc
          decide
      exact Option.some.inj (horigin.symm.trans hpath)
    cases value with
    | none => exact hfallback hlocation
    | some text =>
      by_cases hrefused : text = [] ∨ ¬ "/".toList <+: text ∨ "//".toList <+: text ∨ '\\' ∈ text
      · rw [show safeNext (some text) = "/account" from if_pos hrefused] at hlocation
        exact hfallback hlocation
      · rw [show safeNext (some text) = text from if_neg hrefused] at hlocation
        have haccepted := hrefused
        simp only [not_or, not_not] at haccepted
        obtain ⟨-, ⟨body, rfl⟩, hdouble, hbackslash⟩ := haccepted
        have hkept : headerValue ('/' :: body) = .ok location := hlocation
        have hvalid := hkept
        rw [headerValue_slash] at hvalid
        split at hvalid
        case isFalse => exact absurd hvalid (by simp)
        rename_i hall
        rw [← Except.ok.inj hvalid, hresolve] at horigin
        cases hhead : cleanedEnd body with
        | nil =>
          rw [Site.resolve_path (by simp [hhead])] at horigin
          exact (Option.some.inj horigin).symm
        | cons c more =>
          cases hslash : isSlash c with
          | false =>
            rw [Site.resolve_path (by simpa [hhead] using hslash)] at horigin
            exact (Option.some.inj horigin).symm
          | true =>
            have hcontrol : isControlOrSpace c = false := by
              simp only [isSlash, List.mem_cons, List.not_mem_nil, or_false,
                decide_eq_true_eq] at hslash
              rcases hslash with rfl | rfl <;> decide
            obtain ⟨before, rest, rfl, hbefore, rfl⟩ := cleanedEnd_eq_cons hcontrol hhead
            -- a backslash is refused, so the second slash is one, and only tabs precede it
            obtain rfl : c = '/' := by
              simp only [isSlash, List.mem_cons, List.not_mem_nil, or_false,
                decide_eq_true_eq] at hslash
              rcases hslash with rfl | rfl
              · rfl
              · exact absurd (List.mem_cons_of_mem _
                  (List.mem_append_right _ List.mem_cons_self)) hbackslash
            have htabs := tab_of_header hbefore hall
            have hne : before ≠ [] := by
              rintro rfl
              exact hdouble ⟨rest, rfl⟩
            rw [Site.resolve_authority hhead hslash,
              List.dropWhile_cons_of_pos (by decide)] at horigin
            exact hcond _ rest rfl ⟨before, hne, htabs, rfl⟩ hbackslash ⟨location, hkept⟩ origin
              horigin

/-! ### A continuation that leaves -/

/-- A site whose parser takes the authority up to the next mark for its host. -/
def kodySite : Site where
  origin := "https://kody.example"
  authority := fun text =>
    some ("https://" ++ text.takeWhile fun c => decide (c ∉ ['/', '?', '#', '\\']))
  absolute := fun _ => none

/-- **A tab between the slashes** gets past `safeNext`, and the browser drops it. -/
theorem tabbed_leaves :
    redirect (safeNext (some "/\t/evil.example")) = .ok "/\t/evil.example" ∧
      kodySite.resolve "/\t/evil.example" = some "https://evil.example" ∧
      ¬ StaysOnSite kodySite (some "/\t/evil.example") := by
  have hredirect : redirect (safeNext (some "/\t/evil.example")) = .ok "/\t/evil.example" := by
    decide
  have hresolve : kodySite.resolve "/\t/evil.example" = some "https://evil.example" := by decide
  refine ⟨hredirect, hresolve, fun hstays => ?_⟩
  exact absurd (hstays _ hredirect _ hresolve) (by decide)

end KodyCelld.Auth.SigninNext
