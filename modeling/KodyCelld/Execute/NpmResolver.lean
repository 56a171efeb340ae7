import KodyCelld.Execute.ImportSpecifiers
import KodyCelld.Lib.Url

namespace KodyCelld.Execute

open KodyCelld.Lib

/-!
# npm modules from the CDN (`execute/npm-resolver.ts`)

`resolveNpmModules` fetches the modules that bare specifiers name and, transitively, those that they
import.

* `importPieces` — the imports that `importRegex` finds in a module;
* `entryUrl`, `visitModule`, `npmLoop`, `resolveNpmModules` — the resolver;
* `npmLoop_stays` — what is fetched stays on the CDN as long as the first URLs and the redirects do;
* `npmLoop_calm` — what is fetched where the modules import nothing;
* `npm_stays_on_cdn` — so the first URLs decide; `redirects_needed` — and the redirects from them.

The URL parser, the caches and the answers of the CDN are parameters.  The memo in front of the
durable cache is shared by all runs of an isolate: it is asked once for each URL, and may say
anything.
-/

/-! ### Imports in the text of a module -/

/-- A part of a module: a character outside of imports, or an import up to its closing quote. -/
inductive ImportPiece where
  | char (c : Char)
  | found (head : Text) (quote : Char) (spec : Text)
  deriving DecidableEq, Repr

/-- `\bfrom\s*` at the end, something else before it. -/
def endsWithFrom (segment : Text) : Bool :=
  let kept := (segment.reverse.dropWhile isSpace).reverse
  endsWith kept "from" &&
    match (kept.take (kept.length - 4)).getLast? with
    | some c => !isWord c
    | none => false

/-- What may stand between the keyword and the quote. -/
def segmentFits (keyword segment : Text) : Bool :=
  (atBoundary segment && endsWithFrom segment) ||
    (decide (keyword = "import") &&
      let rest := segment.dropWhile isSpace
      match rest with
      | [] => true
      | c :: more => decide (c = '(') && more.all isSpace)

/-- The rest of `importRegex` after its keyword: the head, the quote, the specifier and what
    follows.  No alternative lets a quote stand between the keyword and the specifier. -/
def importAfter (keyword rest : Text) : Option (Text × Char × Text × Text) :=
  let segment := rest.takeWhile fun c => c ∉ ('\'' :: '"' :: ';' :: [Char.ofNat 96])
  match rest.drop segment.length with
  | quote :: body =>
    if (quote = '\'' ∨ quote = '"') ∧ segmentFits keyword segment then
      let spec := body.takeWhile fun c => c ∉ ['\'', '"', '\n']
      match body.drop spec.length with
      | close :: after =>
        if close = quote ∧ spec ≠ [] then some (keyword ++ segment, quote, spec, after) else none
      | [] => none
    else none
  | [] => none

/-- A match of `importRegex` at this position. -/
def importAt (text : Text) : Option (Text × Char × Text × Text) :=
  match stripWord? "import" text with
  | some rest => importAfter "import" rest
  | none =>
    match stripWord? "export" text with
    | some rest => importAfter "export" rest
    | none => none

/-- `source.matchAll(importRegex)` with the text between the matches.  `word` tells whether the
    character before is one of a word; `fuel` bounds what is left to read. -/
def piecesFrom : (fuel : ℕ) → (word : Bool) → Text → List ImportPiece
  | _, _, [] => []
  | 0, _, _ => []
  | fuel + 1, word, c :: rest =>
    match if word then none else importAt (c :: rest) with
    | some (head, quote, spec, after) => .found head quote spec :: piecesFrom fuel false after
    | none => .char c :: piecesFrom fuel (isWord c) rest

def importPieces (source : Text) : List ImportPiece := piecesFrom source.length false source

def ImportPiece.spec? : ImportPiece → Option Text
  | .char _ => none
  | .found _ _ spec => some spec

/-- The specifiers in the order of their matches. -/
def importSpecs (source : Text) : List Text := (importPieces source).filterMap ImportPiece.spec?

/-! ### Paths -/

/-- `path.slice(0, path.lastIndexOf('/'))` -/
def dirname (path : Text) : Text := (path.reverse.dropWhile (· ≠ '/')).tail.reverse

/-- The parts of a path. -/
def pathParts (path : Text) : List Text := (path.splitOn '/').filter fun part => !part.isEmpty

/-- The parts after those that both paths start with. -/
def dropShared : List Text → List Text → List Text × List Text
  | a :: as, b :: bs => if a = b then dropShared as bs else (a :: as, b :: bs)
  | as, bs => (as, bs)

/-- Import specifier that reaches module `dest` from module `source` (`execute/module-graph.ts`). -/
def relativeSpecifier (source dest : Text) : Text :=
  let (up, down) := dropShared (pathParts (dirname source)) (pathParts dest)
  let spec := ['/'].intercalate (up.map (fun _ => (".." : Text)) ++ down)
  if startsWith spec "." then spec else "./" ++ spec

/-- `text.replaceAll(/[^a-zA-Z0-9]+/g, '_')` -/
def underscored : Text → Text
  | [] => []
  | c :: rest =>
    if isDigit c || isLetter c then c :: underscored rest
    else match underscored rest with
      | '_' :: more => '_' :: more
      | more => '_' :: more

def pathForUrl (url : Url) : Text :=
  let query : Text := if url.search ≠ [] then "__" ++ underscored url.search else []
  let cleaned := (url.host ++ url.pathname ++ query).map fun c =>
    if isDigit c || isLetter c || c ∈ ['@', '.', '_', '/', '-'] then c else '_'
  let ending : Text :=
    if endsWith url.pathname ".js" || endsWith url.pathname ".mjs" then [] else ".js"
  "npm/" ++ cleaned ++ ending

/-! ### The resolver -/

def maxModules : ℕ := 40

def maxTotalBytes : ℕ := 6 * 1024 * 1024

structure NpmConfig where
  cdnOrigin : Text
  cacheMaxBytes : ℕ
  deriving DecidableEq, Repr

/-- The answer to a request: the redirects that were followed, then the status and the body, or why
    there is none. -/
structure CdnAnswer where
  hops : List Url
  result : Except Thrown (ℕ × Text)

/-- What a run finds outside: the memo, the durable cache if there is one, and the CDN. -/
structure CdnNetwork where
  memo : Text → Option Text
  durable : Option (Text → Option Text)
  answer : Text → CdnAnswer

/-- What a run has done so far; `requested` lists every URL that was fetched, redirects included. -/
structure NpmState where
  modules : List (Text × Text)
  warnings : List Text
  fetchedNow : List (Text × Text)
  totalBytes : ℕ
  cached : ℕ
  fetched : ℕ
  requested : List Url

structure NpmResolution where
  modules : List (Text × Text)
  entryPaths : List (Text × Text)
  warnings : List Text
  cached : ℕ
  fetched : ℕ
  /-- What `putMany` is called with. -/
  stored : Option (List (Text × Text))
  deriving DecidableEq, Repr

/-- `map.set(key, value)`, in a map or in an object whose keys are paths. -/
def mapSet (map : List (Text × Text)) (key value : Text) : List (Text × Text) :=
  if key ∈ map.map Prod.fst then map.map fun e => if e.1 = key then (key, value) else e
  else map ++ [(key, value)]

def invalidUrl : Thrown := .error "Invalid URL"

section
variable (u : UrlApi) (config : NpmConfig) (net : CdnNetwork)

def cdnHost : Text := ((u.parse config.cdnOrigin).map Url.host).getD []

/-- The URL of a bare specifier; `none` where a constructor throws. -/
def entryUrl (specifier : Text) : Option Url := do
  let base ← u.parse config.cdnOrigin
  let url ← u.resolve ('/' :: specifier) base
  return u.setParam "target" "es2022" url

def fetchFromCdn (url : Url) : Except Thrown Text :=
  match (net.answer url.href).result with
  | .error e => .error e
  | .ok (status, text) =>
    if 200 ≤ status ∧ status < 300 then .ok text
    else .error (.kody "npm_fetch_failed"
      (cdnHost u config ++ " returned " ++ natText status ++ " for " ++ url.href) 502)

/-- From the memo, from the durable cache, or from the CDN. -/
def loadModule (url : Url) (st : NpmState) : Except Thrown Text × NpmState :=
  match net.memo url.href with
  | some text => (.ok text, { st with cached := st.cached + 1 })
  | none =>
    match (if 0 < config.cacheMaxBytes then net.durable else none).bind (· url.href) with
    | some hit => (.ok hit, { st with cached := st.cached + 1 })
    | none =>
      let st := { st with requested := st.requested ++ url :: (net.answer url.href).hops }
      match fetchFromCdn u config net url with
      | .error e => (.error e, st)
      | .ok text => (.ok text,
          { st with fetchedNow := mapSet st.fetchedNow url.href text, fetched := st.fetched + 1 })

/-- The imports of a module: the warnings about other origins, and the URL of each specifier that
    stays. -/
def collectDeps (url : Url) : List Text → Except Thrown (List Text × List (Text × Url))
  | [] => .ok ([], [])
  | spec :: rest =>
    if startsWith spec "node:" || startsWith spec "cloudflare:" then collectDeps url rest
    else match u.resolve spec url with
      | none => .error invalidUrl
      | some depUrl =>
        match collectDeps url rest with
        | .error e => .error e
        | .ok (warnings, deps) =>
          if depUrl.origin ≠ config.cdnOrigin then
            .ok (("Skipped cross-origin npm import " ++ depUrl.href ++ " from " ++ url.href ++ ".") ::
              warnings, deps)
          else .ok (warnings, (spec, depUrl) :: deps)

/-- The text of the module, each import of a dependency made relative. -/
def rewriteDeps (path : Text) (deps : List (Text × Url)) (source : Text) : Text :=
  (importPieces source).flatMap fun piece =>
    match piece with
    | .char c => [c]
    | .found head quote spec =>
      match deps.find? fun dep => dep.1 = spec with
      | none => head ++ quote :: spec ++ [quote]
      | some dep => head ++ quote :: relativeSpecifier path (pathForUrl dep.2) ++ [quote]

/-- One round of the loop, on a URL that was not seen: the URLs that join the queue. -/
def visitModule (url : Url) (st : NpmState) : Except Thrown (List Url) × NpmState :=
  let path := pathForUrl url
  match loadModule u config net url st with
  | (.error e, st) => (.error e, st)
  | (.ok source, st) =>
    let st := { st with totalBytes := st.totalBytes + utf16Length source }
    if maxTotalBytes < st.totalBytes then
      (.error (.kody "npm_graph_too_large" "npm import graph exceeded the 6 MiB limit."), st)
    else match collectDeps u config url (importSpecs source) with
      | .error e => (.error e, st)
      | .ok (warnings, deps) => (.ok (deps.map Prod.snd),
          { st with
            warnings := st.warnings ++ warnings
            modules := mapSet st.modules path (rewriteDeps path deps source) })

/-- `while (queue.length > 0)`; `fuel` is the number of modules that may still be seen. -/
def npmLoop : (fuel : ℕ) → (queue : List Url) → (seen : List Text) → NpmState →
    Except Thrown Unit × NpmState
  | fuel, queue, seen, st =>
    match fuel, queue.dropWhile fun url => url.href ∈ seen with
    | _, [] => (.ok (), st)
    | 0, _ :: _ => (.error (.kody "npm_graph_too_large"
        ("npm import graph exceeded " ++ natText maxModules ++ " modules.")), st)
    | fuel + 1, url :: rest =>
      match visitModule u config net url st with
      | (.error e, st) => (.error e, st)
      | (.ok deps, st) => npmLoop fuel (rest ++ deps) (url.href :: seen) st

def startState : NpmState := ⟨[], [], [], 0, 0, 0, []⟩

/-- The answer, and what the run had done when it gave it. -/
def resolveNpmModules (specifiers : List Text) : Except Thrown NpmResolution × NpmState :=
  match specifiers.mapM (entryUrl u config) with
  | none => (.error invalidUrl, startState)
  | some queue =>
    let entryPaths := (specifiers.zip queue).foldl
      (fun paths entry => mapSet paths entry.1 (pathForUrl entry.2)) []
    match npmLoop u config net maxModules queue [] startState with
    | (.error e, st) => (.error e, st)
    | (.ok (), st) =>
      let summary : Text := "npm imports (" ++ ([',', ' '] : Text).intercalate specifiers ++
        ") were resolved through " ++ cdnHost u config ++ ": " ++ natText st.cached ++
        " module(s) from cache, " ++ natText st.fetched ++ " downloaded."
      (.ok
        { modules := st.modules
          entryPaths := entryPaths
          warnings := st.warnings ++ if specifiers ≠ [] then [summary] else []
          cached := st.cached
          fetched := st.fetched
          stored := if 0 < config.cacheMaxBytes ∧ net.durable.isSome ∧ st.fetchedNow ≠ [] then
              some st.fetchedNow
            else none }, st)

end

/-! ### The URLs that are fetched first -/

/-- The first URL of each address, without those seen. -/
def distinctUrls : List Url → (seen : List Text) → List Url
  | [], _ => []
  | url :: rest, seen =>
    if url.href ∈ seen then distinctUrls rest seen
    else url :: distinctUrls rest (url.href :: seen)

theorem distinctUrls_dropWhile (queue : List Url) (seen : List Text) :
    distinctUrls (queue.dropWhile fun url => url.href ∈ seen) seen = distinctUrls queue seen := by
  induction queue with
  | nil => rfl
  | cons url rest ih =>
    by_cases hseen : url.href ∈ seen
    · rw [List.dropWhile_cons_of_pos (by simpa using hseen), ih, distinctUrls, if_pos hseen]
    · rw [List.dropWhile_cons_of_neg (by simpa using hseen)]

theorem not_seen_of_dropWhile {queue rest : List Url} {seen : List Text} {url : Url}
    (h : (queue.dropWhile fun url => url.href ∈ seen) = url :: rest) : url.href ∉ seen := by
  have hhead := List.head?_dropWhile_not (fun url : Url => decide (url.href ∈ seen)) queue
  rw [h] at hhead
  simpa using hhead

theorem mem_of_distinctUrls {queue : List Url} {seen : List Text} {url : Url}
    (h : url ∈ distinctUrls queue seen) : url ∈ queue := by
  induction queue generalizing seen with
  | nil => exact h
  | cons first rest ih =>
    rw [distinctUrls] at h
    split at h
    · exact List.mem_cons_of_mem _ (ih h)
    · rcases List.mem_cons.mp h with rfl | hrest
      · exact List.mem_cons_self
      · exact List.mem_cons_of_mem _ (ih hrest)

/-- The URLs of a queue that grew: those it had before come first. -/
theorem distinctUrls_append (queue deps : List Url) (seen : List Text) :
    ∃ seen', distinctUrls (queue ++ deps) seen =
      distinctUrls queue seen ++ distinctUrls deps seen' := by
  induction queue generalizing seen with
  | nil => exact ⟨seen, rfl⟩
  | cons url rest ih =>
    rw [List.cons_append, distinctUrls, distinctUrls]
    split
    · exact ih seen
    · obtain ⟨seen', heq⟩ := ih (url.href :: seen)
      exact ⟨seen', by rw [heq, List.cons_append]⟩

/-- Of a queue that grew, what is fetched was to be fetched before, or is new. -/
theorem mem_take_distinctUrls {queue deps : List Url} {seen : List Text} {fuel : ℕ} {url : Url}
    (h : url ∈ (distinctUrls (queue ++ deps) seen).take fuel) :
    url ∈ (distinctUrls queue seen).take fuel ∨ url ∈ deps := by
  obtain ⟨seen', heq⟩ := distinctUrls_append queue deps seen
  rw [heq, List.take_append] at h
  rcases List.mem_append.mp h with hold | hnew
  · exact .inl hold
  · exact .inr (mem_of_distinctUrls (List.mem_of_mem_take hnew))

section
variable {u : UrlApi} {config : NpmConfig} {net : CdnNetwork}

def OnCdn (config : NpmConfig) (url : Url) : Prop := url.origin = config.cdnOrigin

variable (u config) in
/-- The URLs of the specifiers that a run can get to: none if one of them is not valid. -/
def firstUrls (specifiers : List Text) : List Url :=
  match specifiers.mapM (entryUrl u config) with
  | none => []
  | some queue => (distinctUrls queue []).take maxModules

variable (u config) in
/-- The URLs of the specifiers are on the CDN, as far as a run can get to them. -/
def EntriesStay (specifiers : List Text) : Prop :=
  ∀ url ∈ firstUrls u config specifiers, OnCdn config url

/-- The CDN redirects to itself only. -/
def RedirectsStay (config : NpmConfig) (net : CdnNetwork) : Prop :=
  ∀ url, OnCdn config url → ∀ hop ∈ (net.answer url.href).hops, OnCdn config hop

variable (u config net) in
/-- Every URL that a run fetches is on the CDN, redirects included. -/
def FetchesStay (specifiers : List Text) : Prop :=
  ∀ url ∈ (resolveNpmModules u config net specifiers).2.requested, OnCdn config url

/-! ### One module -/

/-- What a module adds to the fetches: its own URL and the redirects from it. -/
theorem loadModule_requested {url : Url} {st st' : NpmState} {answer : Except Thrown Text}
    (h : loadModule u config net url st = (answer, st')) {fetched : Url}
    (hfetched : fetched ∈ st'.requested) :
    fetched ∈ st.requested ∨ fetched = url ∨ fetched ∈ (net.answer url.href).hops := by
  have hnew : fetched ∈ st.requested ++ url :: (net.answer url.href).hops →
      fetched ∈ st.requested ∨ fetched = url ∨ fetched ∈ (net.answer url.href).hops := by
    intro hmem
    rcases List.mem_append.mp hmem with hold | hnew
    · exact .inl hold
    · exact .inr (List.mem_cons.mp hnew)
  unfold loadModule at h
  split at h
  · obtain ⟨-, rfl⟩ := Prod.mk.inj h
    exact .inl hfetched
  · split at h
    · obtain ⟨-, rfl⟩ := Prod.mk.inj h
      exact .inl hfetched
    · dsimp only at h
      split at h
      · obtain ⟨-, rfl⟩ := Prod.mk.inj h
        exact hnew hfetched
      · obtain ⟨-, rfl⟩ := Prod.mk.inj h
        exact hnew hfetched

/-- The dependencies that join the queue are on the CDN. -/
theorem collectDeps_onCdn {url : Url} {specs warnings : List Text} {deps : List (Text × Url)}
    (h : collectDeps u config url specs = .ok (warnings, deps)) :
    ∀ dep ∈ deps, OnCdn config dep.2 := by
  induction specs generalizing warnings deps with
  | nil =>
    obtain ⟨-, rfl⟩ := Prod.mk.inj (Except.ok.inj h)
    exact fun dep hdep => absurd hdep List.not_mem_nil
  | cons spec rest ih =>
    rw [collectDeps] at h
    split at h
    · exact ih h
    · split at h
      · exact absurd h (by simp)
      · split at h
        · exact absurd h (by simp)
        · rename_i depUrl _ _ _ hrest
          split at h
          · obtain ⟨-, rfl⟩ := Prod.mk.inj (Except.ok.inj h)
            exact ih hrest
          · rename_i horigin
            obtain ⟨-, rfl⟩ := Prod.mk.inj (Except.ok.inj h)
            intro dep hdep
            rcases List.mem_cons.mp hdep with rfl | hold
            · exact not_not.mp horigin
            · exact ih hrest dep hold

/-- **Step lemma.**  A module on the CDN is fetched from the CDN, and so are its dependencies. -/
theorem visitModule_stays (hredirects : RedirectsStay config net) {url : Url} (hurl : OnCdn config url)
    {st st' : NpmState} {answer : Except Thrown (List Url)}
    (hst : ∀ fetched ∈ st.requested, OnCdn config fetched)
    (h : visitModule u config net url st = (answer, st')) :
    (∀ fetched ∈ st'.requested, OnCdn config fetched) ∧
      ∀ deps, answer = .ok deps → ∀ dep ∈ deps, OnCdn config dep := by
  have hloaded : ∀ {answer st₁}, loadModule u config net url st = (answer, st₁) →
      ∀ fetched ∈ st₁.requested, OnCdn config fetched := by
    intro answer st₁ hload fetched hfetched
    rcases loadModule_requested hload hfetched with hold | rfl | hhop
    · exact hst fetched hold
    · exact hurl
    · exact hredirects url hurl fetched hhop
  unfold visitModule at h
  dsimp only at h
  split at h
  · rename_i e st₁ hload
    obtain ⟨rfl, rfl⟩ := Prod.mk.inj h
    exact ⟨hloaded hload, fun deps hok => absurd hok (by simp)⟩
  · rename_i source st₁ hload
    have hst₁ := hloaded hload
    split at h
    · obtain ⟨rfl, rfl⟩ := Prod.mk.inj h
      exact ⟨hst₁, fun deps hok => absurd hok (by simp)⟩
    · split at h
      · obtain ⟨rfl, rfl⟩ := Prod.mk.inj h
        exact ⟨hst₁, fun deps hok => absurd hok (by simp)⟩
      · rename_i warnings deps hdeps
        obtain ⟨rfl, rfl⟩ := Prod.mk.inj h
        refine ⟨hst₁, fun urls hok dep hdep => ?_⟩
        obtain rfl := Except.ok.inj hok
        obtain ⟨entry, hentry, rfl⟩ := List.mem_map.mp hdep
        exact collectDeps_onCdn hdeps entry hentry

/-! ### The loop -/

/-- **Run lemma**, by induction on the modules that may still be seen: what the queue holds and the
    loop can get to is on the CDN, and so is what was fetched. -/
theorem npmLoop_stays (hredirects : RedirectsStay config net) {fuel : ℕ} {queue : List Url}
    {seen : List Text} {st : NpmState}
    (hqueue : ∀ url ∈ (distinctUrls queue seen).take fuel, OnCdn config url)
    (hst : ∀ url ∈ st.requested, OnCdn config url) :
    ∀ url ∈ (npmLoop u config net fuel queue seen st).2.requested, OnCdn config url := by
  induction fuel generalizing queue seen st with
  | zero =>
    unfold npmLoop
    split
    · exact hst
    · exact hst
    · rename_i hfuel _
      exact absurd hfuel (by simp)
  | succ fuel ih =>
    rw [← distinctUrls_dropWhile] at hqueue
    unfold npmLoop
    split
    · exact hst
    · rename_i hfuel _
      exact absurd hfuel (by simp)
    · rename_i fuel' url rest hfuel hdropped
      obtain rfl : fuel = fuel' := Nat.succ.inj hfuel
      have hnew : url.href ∉ seen := not_seen_of_dropWhile hdropped
      rw [hdropped, distinctUrls, if_neg hnew, List.take_succ_cons] at hqueue
      have hurl : OnCdn config url := hqueue url List.mem_cons_self
      split
      · rename_i e st' hvisit
        exact (visitModule_stays hredirects hurl hst hvisit).1
      · rename_i deps st' hvisit
        obtain ⟨hst', hdeps⟩ := visitModule_stays hredirects hurl hst hvisit
        apply ih _ hst'
        intro next hnext
        rcases mem_take_distinctUrls hnext with hold | hdep
        · exact hqueue next (List.mem_cons_of_mem _ hold)
        · exact hdeps deps rfl next hdep

/-- An empty CDN: nothing is cached, and every module is empty. -/
def calmNetwork (hops : Text → List Url) : CdnNetwork where
  memo := fun _ => none
  durable := none
  answer := fun href => ⟨hops href, .ok (200, [])⟩

theorem visitModule_calm (hops : Text → List Url) (url : Url) {st : NpmState}
    (hbytes : st.totalBytes = 0) :
    ∃ st', visitModule u config (calmNetwork hops) url st = (.ok [], st') ∧ st'.totalBytes = 0 ∧
      st'.requested = st.requested ++ url :: hops url.href := by
  have hload : loadModule u config (calmNetwork hops) url st = (.ok [],
      { st with
        requested := st.requested ++ url :: hops url.href
        fetchedNow := mapSet st.fetchedNow url.href []
        fetched := st.fetched + 1 }) := by
    unfold loadModule fetchFromCdn calmNetwork
    simp
  have hempty : utf16Length [] = 0 := rfl
  unfold visitModule
  rw [hload]
  dsimp only
  rw [hempty, hbytes, Nat.add_zero, if_neg (by omega)]
  exact ⟨_, rfl, rfl, rfl⟩

/-- What is fetched from an empty CDN: the URLs of the queue, each with its redirects. -/
theorem npmLoop_calm (hops : Text → List Url) {fuel : ℕ} {queue : List Url} {seen : List Text}
    {st : NpmState} (hbytes : st.totalBytes = 0) :
    (npmLoop u config (calmNetwork hops) fuel queue seen st).2.requested = st.requested ++
      ((distinctUrls queue seen).take fuel).flatMap fun url => url :: hops url.href := by
  induction fuel generalizing queue seen st with
  | zero =>
    unfold npmLoop
    split
    · simp
    · simp
    · rename_i hfuel _
      exact absurd hfuel (by simp)
  | succ fuel ih =>
    rw [← distinctUrls_dropWhile]
    unfold npmLoop
    split
    · rename_i hdropped
      rw [hdropped]
      simp [distinctUrls]
    · rename_i hfuel _
      exact absurd hfuel (by simp)
    · rename_i fuel' url rest hfuel hdropped
      obtain rfl : fuel = fuel' := Nat.succ.inj hfuel
      have hnew : url.href ∉ seen := not_seen_of_dropWhile hdropped
      obtain ⟨st', hvisit, hbytes', hrequested⟩ := visitModule_calm hops url hbytes
      rw [hvisit]
      dsimp only
      rw [List.append_nil, ih hbytes', hrequested, hdropped, distinctUrls, if_neg hnew,
        List.take_succ_cons, List.flatMap_cons, List.append_assoc]

theorem resolveNpmModules_requested (specifiers : List Text) :
    (resolveNpmModules u config net specifiers).2.requested =
      match specifiers.mapM (entryUrl u config) with
      | none => []
      | some queue => (npmLoop u config net maxModules queue [] startState).2.requested := by
  unfold resolveNpmModules
  split
  · rfl
  · dsimp only
    split
    · rename_i h
      rw [h]
    · rename_i h
      rw [h]

/-- **Enough.**  If the URLs of the specifiers are on the CDN, and it redirects to itself only, then
    so is every URL that is fetched, whatever the modules import. -/
theorem fetches_stay {specifiers : List Text} (hentries : EntriesStay u config specifiers)
    (hredirects : RedirectsStay config net) : FetchesStay u config net specifiers := by
  intro url hurl
  rw [resolveNpmModules_requested] at hurl
  unfold EntriesStay firstUrls at hentries
  split at hurl
  · exact absurd hurl List.not_mem_nil
  rename_i queue hqueue
  rw [hqueue] at hentries
  exact npmLoop_stays hredirects hentries (fun _ h => absurd h List.not_mem_nil) url hurl

/-- **Needed.**  From an empty CDN, the URLs of the specifiers and their redirects are what is
    fetched. -/
theorem requested_calm (hops : Text → List Url) (specifiers : List Text) :
    (resolveNpmModules u config (calmNetwork hops) specifiers).2.requested =
      (firstUrls u config specifiers).flatMap fun url => url :: hops url.href := by
  rw [resolveNpmModules_requested]
  unfold firstUrls
  split
  · rfl
  · rw [npmLoop_calm hops rfl]
    rfl

/-- **Staying on the CDN.**  The redirects apart, the specifiers decide: everything that is fetched is
    on the CDN, whatever it answers and whatever its modules import, exactly if the URLs of the
    specifiers are. -/
theorem npm_stays_on_cdn (u : UrlApi) (config : NpmConfig) (specifiers : List Text) :
    (∀ net, RedirectsStay config net → FetchesStay u config net specifiers) ↔
      EntriesStay u config specifiers := by
  constructor
  · intro h url hurl
    apply h (calmNetwork fun _ => [])
    · exact fun _ _ hop hhop => absurd hhop List.not_mem_nil
    · rw [requested_calm]
      exact List.mem_flatMap.mpr ⟨url, hurl, List.mem_cons_self⟩
  · intro hentries net hredirects
    exact fetches_stay hentries hredirects

/-- The redirects from the URLs of the specifiers have to stay as well. -/
theorem redirects_needed {hops : Text → List Url} {specifiers : List Text}
    (h : FetchesStay u config (calmNetwork hops) specifiers) :
    ∀ url ∈ firstUrls u config specifiers, ∀ hop ∈ hops url.href, OnCdn config hop := by
  intro url hurl hop hhop
  apply h
  rw [requested_calm]
  exact List.mem_flatMap.mpr ⟨url, hurl, List.mem_cons_of_mem _ hhop⟩

end

/-! ### Away from the CDN -/

/-- What the module graph (`execute/module-graph.ts`) takes for a bare npm specifier. -/
def isNpmSpecifier (specifier : Text) : Bool :=
  !(startsWith specifier "kody:" || startsWith specifier "node:" ||
    startsWith specifier "cloudflare:" || startsWith specifier "./" || startsWith specifier "../" ||
    startsWith specifier "/")

def cdnUrl : Url where
  href := "https://esm.sh/"
  origin := "https://esm.sh"
  protocol := "https:"
  username := []
  password := []
  hostname := "esm.sh"
  port := []
  pathname := "/"
  search := []
  hash := []

def padUrl : Url := { cdnUrl with href := "https://esm.sh/left-pad", pathname := "/left-pad" }

/-- What `/\evil.example/x` is relative to any https URL: a backslash counts as a slash. -/
def evilUrl : Url :=
  { cdnUrl with
    href := "https://evil.example/x"
    origin := "https://evil.example"
    hostname := "evil.example"
    pathname := "/x" }

/-- The URLs of the examples; none of them has a query before its target is set. -/
def npmUrls : UrlApi where
  toUrlParser := absoluteParser [("https://esm.sh", cdnUrl), ("/left-pad", padUrl),
    ("/\\evil.example/x", evilUrl)]
  setParam := fun name value url =>
    { url with
      href := url.href ++ '?' :: name ++ '=' :: value
      search := '?' :: name ++ '=' :: value }

def esmSh : NpmConfig := ⟨"https://esm.sh", 0⟩

/-- **A backslash.**  A bare specifier that starts with one names another host, and is fetched from
    there, with no redirect at all. -/
theorem backslashSpecifier : isNpmSpecifier "\\evil.example/x" = true ∧
    RedirectsStay esmSh (calmNetwork fun _ => []) ∧
    ¬ FetchesStay npmUrls esmSh (calmNetwork fun _ => []) ["\\evil.example/x"] := by
  refine ⟨by decide, fun _ _ hop hhop => absurd hhop List.not_mem_nil, fun hstays => ?_⟩
  have hfetched : (resolveNpmModules npmUrls esmSh (calmNetwork fun _ => [])
      ["\\evil.example/x"]).2.requested.any (fun url => url.origin = "https://evil.example") =
      true := by
    decide +kernel
  obtain ⟨url, hurl, horigin⟩ := List.any_eq_true.mp hfetched
  rw [decide_eq_true_eq] at horigin
  have hcdn : url.origin = "https://esm.sh" := hstays url hurl
  rw [horigin] at hcdn
  exact absurd hcdn (by decide)

end KodyCelld.Execute
