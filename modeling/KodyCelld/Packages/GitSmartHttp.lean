import KodyCelld.Lib.SimpleUrls
import KodyCelld.Packages.GitTree
import KodyCelld.Packages.SourceFetch

namespace KodyCelld.Packages

open KodyCelld.Lib KodyCelld.Execute

/-!
# The git client (`packages/git-smart-http.ts`)

A read-only clone over smart HTTP: the refs of the repository, then one pack with what is wanted.

* `readPktLines`, `discoverGitRefs`, `resolveGitRef` — the refs that a server advertises;
* `demuxUploadPack` — the pack in the answer to the second request;
* `normalizeGitUrl`, `cloneGitSmartHttp` — the base that both requests are made under, and the clone;
* `resolveGitRef_sha` — a clone asks for a full commit name;
* `redirects_checked` — both clients of package sources stay where the policy allows, however they
  are redirected.

Unpacking a pack is a parameter.
-/

/-! ### Packet lines -/

/-- A hexadecimal digit in either case. -/
def isHexLetter (c : Char) : Bool := isHexDigit (Char.toLower c)

/-- `Number.parseInt(text, 16)`, for a length: no number, or a negative one, is none. -/
def parseHex? (text : Text) : Option ℕ :=
  let text := text.dropWhile isSpace
  let (negative, text) := match text with
    | '-' :: rest => (true, rest)
    | '+' :: rest => (false, rest)
    | rest => (false, rest)
  let text := match text with
    | '0' :: 'x' :: rest => rest
    | '0' :: 'X' :: rest => rest
    | rest => rest
  let digits := text.takeWhile isHexLetter
  if digits = [] ∨ negative then none
  else some (digits.foldl (fun n c => 16 * n + (hexDigit? c).getD 0) 0)

/-- `payload.length.toString(16).padStart(4, '0')` before the payload. -/
def pktLine (payload : Text) : List UInt8 :=
  let body := utf8Encode payload
  let digits := Nat.toDigits 16 (body.length + 4)
  utf8Encode (List.replicate (4 - digits.length) '0' ++ digits) ++ body

def flushPkt : List UInt8 := utf8Encode "0000"

def malformedPkt : Thrown := fetchFailure "Malformed git pkt-line response." 502

/-- The loop of `readPktLines`; a line takes four bytes at least. -/
def readPktLinesFrom : (fuel : ℕ) → List UInt8 → Except Thrown (List (List UInt8))
  | 0, _ => .ok []
  | fuel + 1, bytes =>
    if bytes.length < 4 then .ok []
    else
      let lenHex := utf8Decode (bytes.take 4)
      if lenHex = "0000" then (readPktLinesFrom fuel (bytes.drop 4)).map ([] :: ·)
      else
        match parseHex? lenHex with
        | none => .error malformedPkt
        | some len =>
          if len < 4 ∨ bytes.length < len then .error malformedPkt
          else (readPktLinesFrom fuel (bytes.drop len)).map (subarray bytes 4 len :: ·)

def readPktLines (bytes : List UInt8) : Except Thrown (List (List UInt8)) :=
  readPktLinesFrom bytes.length bytes

def lineText (line : List UInt8) : Text :=
  utf8Decode (if line.getLast? = some 0x0a then line.dropLast else line)

/-! ### Refs -/

/-- `DiscoveredRefs`; of a name that is set twice the later entry, which comes first, counts. -/
structure DiscoveredRefs where
  head : Option Text
  refs : List (Text × Text)
  symrefHead : Option Text
  fetchedFrom : Text
  deriving DecidableEq, Repr

structure Advertisement where
  sawService : Bool
  head : Option Text
  refs : List (Text × Text)
  symrefHead : Option Text

/-- `/^[0-9a-f]{40}$/` -/
def isSha (text : Text) : Bool := decide (text.length = 40) && text.all isHexDigit

def symrefWord : Text := "symref=HEAD:"

/-- One line of the advertisement. -/
def readRefLine (st : Advertisement) (line : List UInt8) : Advertisement :=
  let text := lineText line
  if line = [] then st
  else if startsWith text "# service=" then { st with sawService := true }
  else
    let main := text.takeWhile (· ≠ '\x00')
    let caps := (text.dropWhile (· ≠ '\x00')).drop 1
    let sha := lower (main.takeWhile (· ≠ ' '))
    let name := (main.dropWhile (· ≠ ' ')).drop 1
    if ' ' ∉ main ∨ !isSha sha then st
    else
      let symrefs := (caps.splitOn ' ').filter fun cap => startsWith cap symrefWord
      { st with
        refs := (name, sha) :: st.refs
        head := if name = "HEAD" then some sha else st.head
        symrefHead :=
          (symrefs.getLast?.map fun cap => cap.drop symrefWord.length).orElse fun _ =>
            st.symrefHead }

def readAdvertisement (answer : GitAnswer) : Except Thrown DiscoveredRefs := do
  let lines ← readPktLines answer.bytes
  let st := lines.foldl readRefLine ⟨false, none, [], none⟩
  if !st.sawService ∧ st.refs = [] then
    throw (fetchFailure
      "Git smart-HTTP advertisement missing; is the .git upload-pack route live?" 502)
  return ⟨st.head, st.refs, st.symrefHead, answer.url⟩

/-- What `HEAD` stands for. -/
def resolveHead (discovery : DiscoveredRefs) : Except Thrown Text :=
  let named := fun name : Text => discovery.refs.lookup name
  let fallback := (named "refs/heads/master").orElse fun _ => named "refs/heads/main"
  match discovery.head.orElse fun _ =>
    (discovery.symrefHead.bind named).orElse fun _ => fallback with
  | some sha => .ok sha
  | none => .error (fetchFailure "Repository has no HEAD ref to clone." 502)

def resolveGitRef (discovery : DiscoveredRefs) (ref : Option Text) : Except Thrown Text :=
  match ref with
  | none => resolveHead discovery
  | some ref =>
    if ref = [] ∨ ref = "HEAD" then resolveHead discovery
    else if isSha (lower ref) then .ok (lower ref)
    else
      let names : List Text := [ref, "refs/heads/" ++ ref, "refs/tags/" ++ ref,
        "refs/tags/" ++ ref ++ "^\x7b\x7d"]
      match names.findSome? fun name => discovery.refs.lookup name with
      | some sha => .ok sha
      | none =>
        .error (fetchFailure ("Ref \"" ++ ref ++ "\" was not advertised by the git remote.") 404)

/-! ### The pack -/

/-- The loop of `demuxUploadPack`: the data of the first band, if any. -/
def demuxFrom : (fuel : ℕ) → (sawBand : Bool) → (pack : Option (List UInt8)) → List UInt8 →
    Except Thrown (Option (List UInt8))
  | 0, _, pack, _ => .ok pack
  | fuel + 1, sawBand, pack, bytes =>
    if bytes.length < 4 then .ok pack
    else
      let lenHex := utf8Decode (bytes.take 4)
      if lenHex = "0000" then
        if sawBand then .ok pack else demuxFrom fuel sawBand pack (bytes.drop 4)
      else
        match parseHex? lenHex with
        | none => .ok pack
        | some len =>
          if len < 4 ∨ bytes.length < len then .ok pack
          else
            let rest := bytes.drop len
            match subarray bytes 4 len with
            | [] => demuxFrom fuel sawBand pack rest
            | first :: data =>
              if first = 1 then demuxFrom fuel true (some (pack.getD [] ++ data)) rest
              else if first = 2 then demuxFrom fuel true pack rest
              else if first = 3 then
                let message := trim (utf8Decode data)
                .error (fetchFailure (if message = [] then "Git remote error." else message) 502)
              else
                let text := lineText (first :: data)
                if startsWith text "ERR " then .error (fetchFailure (text.drop 4) 502)
                else demuxFrom fuel sawBand pack rest

/-- The rest of the bytes from `PACK` on. -/
def packFrom : List UInt8 → Option (List UInt8)
  | 0x50 :: 0x41 :: 0x43 :: 0x4b :: rest => some (0x50 :: 0x41 :: 0x43 :: 0x4b :: rest)
  | [] => none
  | _ :: rest => packFrom rest

def demuxUploadPack (bytes : List UInt8) : Except Thrown (List UInt8) := do
  match ← demuxFrom bytes.length false none bytes with
  | some pack => return pack
  | none =>
    match packFrom bytes with
    | some pack => return pack
    | none => throw (fetchFailure "Git upload-pack response had no packfile." 502)

/-! ### The clone -/

def normalizeGitUrl (u : UrlSetters) (gitUrl : Text) : Except Thrown Text :=
  match u.parse gitUrl with
  | none => .error invalidUrl
  | some url =>
    let url := u.setSearch [] url.withoutHash
    let path := stripSlashes url.pathname
    let path := if endsWith path ".git" then path else path ++ ".git"
    .ok (stripSlashes (u.setPathname path url).href)

def userAgent : Text × Text := ("user-agent", "kody-celld/0.1 (package-git-clone)")

def discoveryInit (url : Text) : Request where
  method := "GET"
  url := url
  headers := [userAgent, ("accept", "application/x-git-upload-pack-advertisement")]
  body := none

/-- The request for everything that the commit needs. -/
def uploadInit (want url : Text) : Request where
  method := "POST"
  url := url
  headers := [userAgent, ("content-type", "application/x-git-upload-pack-request"),
    ("accept", "application/x-git-upload-pack-result")]
  body := some (pktLine ("want " ++ want ++
      " multi_ack_detailed no-done side-band-64k ofs-delta agent=kody-celld/0.1\n") ++
    pktLine "deepen 1\n" ++ flushPkt ++ pktLine "done\n")

structure Cloned where
  files : PackageFiles
  warnings : List Text
  commit : Text
  fetchedFrom : Text
  gitUrl : Text

/-- What a clone did: the URLs it asked for in each of its two steps, and its result. -/
structure CloneRun where
  discovery : List Text
  upload : List Text
  result : Except Thrown Cloned

section
variable (u : UrlSetters) (policy : SourcePolicy) (net : Network) (before : List Request)
variable (unpackGitPack : List UInt8 → Except Thrown GitObjects) (limits : GitCloneLimits)

def discoverGitRefs (gitUrl : Text) : Chain Thrown DiscoveredRefs :=
  match normalizeGitUrl u gitUrl with
  | .error e => ⟨[], .error e⟩
  | .ok base =>
    let chain := fetchGit u.toUrlParser policy net before discoveryInit limits
      (base ++ "/info/refs?service=git-upload-pack")
    ⟨chain.sent, chain.result.bind readAdvertisement⟩

/-- The files in the answer to the second request. -/
def readUpload (base want : Text) (subdir : Option Text) (answer : GitAnswer) :
    Except Thrown Cloned := do
  let pack ← demuxUploadPack answer.bytes
  let objects ← unpackGitPack pack
  let found ← filesFromGitObjects objects want subdir ⟨limits.maxFiles, limits.maxTotalBytes⟩
  return ⟨found.files, found.warnings, want, answer.url, base⟩

def cloneGitSmartHttp (gitUrl : Text) (ref subdir : Option Text) : CloneRun :=
  match normalizeGitUrl u gitUrl with
  | .error e => ⟨[], [], .error e⟩
  | .ok base =>
    let discovery := discoverGitRefs u policy net before limits base
    match discovery.result.bind fun found => resolveGitRef found ref with
    | .error e => ⟨discovery.sent, [], .error e⟩
    | .ok want =>
      let upload := fetchGit u.toUrlParser policy net (before ++ discovery.sent.map discoveryInit)
        (uploadInit want) limits (base ++ "/git-upload-pack")
      ⟨discovery.sent, upload.sent,
        upload.result.bind (readUpload unpackGitPack limits base want subdir)⟩

end

/-! ### Commit names -/

/-- What was advertised so far are full commit names. -/
structure Advertisement.Shas (st : Advertisement) : Prop where
  head : ∀ sha, st.head = some sha → isSha sha = true
  refs : ∀ row ∈ st.refs, isSha row.2 = true

theorem readRefLine_shas {st : Advertisement} (h : st.Shas) (line : List UInt8) :
    (readRefLine st line).Shas := by
  unfold readRefLine
  dsimp only
  split_ifs with hempty hservice hline hhead
  · exact h
  · exact ⟨h.head, h.refs⟩
  · exact h
  all_goals
    have hsha := (not_or.mp hline).2
    rw [Bool.not_eq_true', Bool.not_eq_false] at hsha
    refine ⟨?_, ?_⟩
  · intro sha hsome
    rw [← Option.some.inj hsome]
    exact hsha
  · exact List.forall_mem_cons.mpr ⟨hsha, h.refs⟩
  · exact h.head
  · exact List.forall_mem_cons.mpr ⟨hsha, h.refs⟩

theorem readRefLines_shas {st : Advertisement} (h : st.Shas) (lines : List (List UInt8)) :
    (lines.foldl readRefLine st).Shas := by
  induction lines generalizing st with
  | nil => exact h
  | cons line lines ih => exact ih (readRefLine_shas h line)

/-- What was discovered are full commit names. -/
structure DiscoveredRefs.Shas (discovery : DiscoveredRefs) : Prop where
  head : ∀ sha, discovery.head = some sha → isSha sha = true
  refs : ∀ name sha, discovery.refs.lookup name = some sha → isSha sha = true

theorem readAdvertisement_shas {answer : GitAnswer} {discovery : DiscoveredRefs}
    (h : readAdvertisement answer = .ok discovery) : discovery.Shas := by
  obtain ⟨lines, -, h⟩ := bind_eq_ok h
  have hstart : (⟨false, none, [], none⟩ : Advertisement).Shas := ⟨nofun, nofun⟩
  have hshas := readRefLines_shas hstart lines
  dsimp only at h
  split at h
  · cases h
  cases h
  refine ⟨hshas.head, ?_⟩
  intro name sha hlookup
  obtain ⟨newer, older, hsplit, -⟩ := List.lookup_eq_some_iff.mp hlookup
  have hmem : (name, sha) ∈ newer ++ (name, sha) :: older :=
    List.mem_append_right _ List.mem_cons_self
  rw [← hsplit] at hmem
  exact hshas.refs (name, sha) hmem

section
variable {discovery : DiscoveredRefs} {sha : Text}

theorem resolveHead_sha (hd : discovery.Shas) (h : resolveHead discovery = .ok sha) :
    isSha sha = true := by
  unfold resolveHead at h
  dsimp only at h
  split at h
  · rename_i found hfound
    obtain rfl := Except.ok.inj h
    simp only [Option.orElse_eq_or, Option.or_eq_some_iff] at hfound
    rcases hfound with hhead | ⟨-, hsym | ⟨-, hfallback⟩⟩
    · exact hd.head _ hhead
    · obtain ⟨name, -, hname⟩ := Option.bind_eq_some_iff.mp hsym
      exact hd.refs name _ hname
    · rcases hfallback with hmaster | ⟨-, hmain⟩
      · exact hd.refs _ _ hmaster
      · exact hd.refs _ _ hmain
  · cases h

/-- **A clone asks for a full commit name.** -/
theorem resolveGitRef_sha (hd : discovery.Shas) {ref : Option Text}
    (h : resolveGitRef discovery ref = .ok sha) : isSha sha = true := by
  unfold resolveGitRef at h
  split at h
  · exact resolveHead_sha hd h
  · split at h
    · exact resolveHead_sha hd h
    · split at h
      · rename_i hsha
        rw [← Except.ok.inj h]
        exact hsha
      · dsimp only at h
        split at h
        · rename_i found hfound
          obtain rfl := Except.ok.inj h
          obtain ⟨name, -, hname⟩ := List.exists_of_findSome?_eq_some hfound
          exact hd.refs name _ hname
        · cases h

end

section
variable {u : UrlSetters} {policy : SourcePolicy} {net : Network} {before : List Request}
variable {unpackGitPack : List UInt8 → Except Thrown GitObjects} {limits : GitCloneLimits}
variable {gitUrl : Text} {ref subdir : Option Text}

theorem except_bind_eq_ok {α β : Type} {x : Except Thrown α} {f : α → Except Thrown β} {b : β}
    (h : x.bind f = .ok b) : ∃ a, x = .ok a ∧ f a = .ok b := bind_eq_ok h

theorem discoverGitRefs_shas {found : DiscoveredRefs}
    (h : (discoverGitRefs u policy net before limits gitUrl).result = .ok found) : found.Shas := by
  unfold discoverGitRefs at h
  split at h
  · cases h
  obtain ⟨answer, -, hread⟩ := except_bind_eq_ok h
  exact readAdvertisement_shas hread

/-- **Inversion.**  A clone that asks for a pack knows its base, and what it wants is a full commit
    name; the first request for the pack goes under the base. -/
theorem cloneGitSmartHttp_cases (run : CloneRun)
    (hrun : run = cloneGitSmartHttp u policy net before unpackGitPack limits gitUrl ref subdir) :
    (run.upload = [] ∧ ∀ cloned, run.result ≠ .ok cloned) ∨
    ∃ base want, normalizeGitUrl u gitUrl = .ok base ∧ isSha want = true ∧
      run.upload = (fetchGit u.toUrlParser policy net (before ++ run.discovery.map discoveryInit)
        (uploadInit want) limits (base ++ "/git-upload-pack")).sent ∧
      ∀ cloned, run.result = .ok cloned → cloned.commit = want := by
  unfold cloneGitSmartHttp at hrun
  split at hrun
  · subst hrun
    exact .inl ⟨rfl, nofun⟩
  · rename_i base hbase
    dsimp only at hrun
    split at hrun
    · subst hrun
      exact .inl ⟨rfl, nofun⟩
    · rename_i want hwant
      subst hrun
      obtain ⟨found, hfound, hresolve⟩ := except_bind_eq_ok hwant
      refine .inr ⟨base, want, hbase, resolveGitRef_sha (discoverGitRefs_shas hfound) hresolve,
        rfl, ?_⟩
      intro cloned hcloned
      obtain ⟨answer, -, hread⟩ := except_bind_eq_ok hcloned
      obtain ⟨pack, -, hread⟩ := bind_eq_ok hread
      obtain ⟨objects, -, hread⟩ := bind_eq_ok hread
      obtain ⟨files, -, hread⟩ := bind_eq_ok hread
      rw [← Except.ok.inj hread]

/-! ### Redirects -/

/-- The base of a clone shares its host with every URL that is asked for under it. -/
theorem normalizeGitUrl_allowed (hu : u.Hosted) {base rest first : Text}
    (hbase : normalizeGitUrl u gitUrl = .ok base) (hrest : rest.head? = some '/')
    (h : assertAllowed u.toUrlParser policy (base ++ rest) = .ok first) :
    ∃ v, assertAllowedSourceUrl u.toUrlParser policy base = .ok v := by
  unfold normalizeGitUrl at hbase
  split at hbase
  · cases hbase
  rename_i url hparse
  dsimp only at hbase
  generalize hpath : (if endsWith (stripSlashes (u.setSearch [] url.withoutHash).pathname) ".git"
    then stripSlashes (u.setSearch [] url.withoutHash).pathname
    else stripSlashes (u.setSearch [] url.withoutHash).pathname ++ ".git") = path at hbase
  obtain rfl := Except.ok.inj hbase
  obtain ⟨asked, hasked, hallowed, -⟩ := assertAllowed_eq_ok h
  -- what is asked for has the scheme of the given URL, so that one is a web URL too
  have hhttp : url.IsHttp := by
    have hscheme := hu.scheme gitUrl url hparse path rest asked (.inr hrest) hasked
    unfold Url.IsHttp
    rw [← hscheme]
    exact (allowSource_eq_ok hallowed).2
  have hplain : u.Known url.withoutHash := hu.lawful.fragment gitUrl url hparse hhttp
  obtain ⟨hknown, hhost, hhash⟩ := hu.setSearch [] _ hplain hhttp
  have hhttp₁ : (u.setSearch [] url.withoutHash).IsHttp := by
    unfold Url.IsHttp
    rw [hhost.protocol]
    exact hhttp
  obtain ⟨hknown', hhost', hsearch', hhash'⟩ := hu.setPathname path _ hknown hhttp₁
  have hhttp₂ : (u.setPathname path (u.setSearch [] url.withoutHash)).IsHttp := by
    unfold Url.IsHttp
    rw [hhost'.protocol]
    exact hhttp₁
  have hbelow := hu.below _ hknown' hhttp₂ (hsearch'.trans (hu.noSearch _)) (hhash'.trans hhash)
  obtain ⟨v, hv, hvhost⟩ := hbelow [] (.inl rfl)
  obtain ⟨w, hw, hwhost⟩ := hbelow rest (.inr hrest)
  obtain rfl := Option.some.inj (hw.symm.trans hasked)
  rw [List.append_nil] at hv
  refine ⟨v, assertAllowedSourceUrl_eq_ok.mpr ⟨hv, ?_⟩⟩
  exact allowSource_sameHost ⟨hwhost.protocol.trans hvhost.protocol.symm,
    hwhost.username.trans hvhost.username.symm, hwhost.password.trans hvhost.password.symm,
    hwhost.hostname.trans hvhost.hostname.symm⟩ hallowed

/-- What a clone may ask for: both steps are chains of allowed requests, and the second starts under
    a base that the policy allows. -/
structure CloneChecked (u : UrlSetters) (policy : SourcePolicy) (net : Network)
    (before : List Request) (maxRedirects : ℕ) (gitUrl : Text) (run : CloneRun) : Prop where
  discovery : SourceChain u.toUrlParser policy net before discoveryInit maxRedirects run.discovery
  upload : ∃ want, SourceChain u.toUrlParser policy net (before ++ run.discovery.map discoveryInit)
    (uploadInit want) maxRedirects run.upload
  base : ∀ url, run.upload.head? = some url → ∃ base v, normalizeGitUrl u gitUrl = .ok base ∧
    assertAllowedSourceUrl u.toUrlParser policy base = .ok v ∧
    assertAllowed u.toUrlParser policy (base ++ "/git-upload-pack") = .ok url

theorem SourceChain.nothing {u : UrlParser} {init : Text → Request} {maxRedirects : ℕ} :
    SourceChain u policy net before init maxRedirects [] where
  admitted := nofun
  bounded := Nat.zero_le _
  redirected earlier url next hprefix := by
    have hle := hprefix.length_le
    simp at hle

theorem discoverGitRefs_chain (hu : u.Hosted) :
    SourceChain u.toUrlParser policy net before discoveryInit limits.maxRedirects
      (discoverGitRefs u policy net before limits gitUrl).sent := by
  unfold discoverGitRefs
  split
  · exact .nothing
  · exact sourceRequest_chain hu.lawful

theorem cloneGitSmartHttp_discovery (hu : u.Hosted) :
    SourceChain u.toUrlParser policy net before discoveryInit limits.maxRedirects
      (cloneGitSmartHttp u policy net before unpackGitPack limits gitUrl ref subdir).discovery := by
  unfold cloneGitSmartHttp
  split
  · exact .nothing
  · dsimp only
    split
    · exact discoverGitRefs_chain hu
    · exact discoverGitRefs_chain hu

theorem cloneGitSmartHttp_checked (hu : u.Hosted) :
    CloneChecked u policy net before limits.maxRedirects gitUrl
      (cloneGitSmartHttp u policy net before unpackGitPack limits gitUrl ref subdir) := by
  refine ⟨cloneGitSmartHttp_discovery hu, ?_, ?_⟩
  · rcases cloneGitSmartHttp_cases _ rfl with ⟨hnone, -⟩ | ⟨base, want, -, -, hupload, -⟩
    · refine ⟨[], ?_⟩
      rw [hnone]
      exact .nothing
    · refine ⟨want, ?_⟩
      rw [hupload]
      exact sourceRequest_chain hu.lawful
  · intro url hurl
    rcases cloneGitSmartHttp_cases _ rfl with ⟨hnone, -⟩ | ⟨base, want, hbase, -, hupload, -⟩
    · rw [hnone] at hurl
      cases hurl
    · rw [hupload] at hurl
      have hfirst := request_first hurl
      obtain ⟨v, hv⟩ := normalizeGitUrl_allowed hu hbase rfl hfirst
      exact ⟨base, v, hbase, hv, hfirst⟩

end

/-- **Redirects are all checked.**  Whatever the network answers, `fetchAllowed` and the git client ask
    only for URLs that the policy allows, at most `maxRedirects + 1` in a chain, each after the first
    being where the answer to the one before it led; and git's second chain starts under a base that
    the policy allows. -/
theorem redirects_checked (u : UrlSetters) (hu : u.Hosted) (policy : SourcePolicy) (net : Network)
    (before : List Request) :
    (∀ raw, SourceChain u.toUrlParser policy net before downloadInit packageSourceLimits.maxRedirects
      (fetchAllowed u.toUrlParser policy net before raw).sent) ∧
    ∀ unpackGitPack limits gitUrl ref subdir,
      CloneChecked u policy net before limits.maxRedirects gitUrl
        (cloneGitSmartHttp u policy net before unpackGitPack limits gitUrl ref subdir) :=
  ⟨fun _ => sourceRequest_chain hu.lawful, fun _ _ _ _ _ => cloneGitSmartHttp_checked hu⟩

/-- Answers by URL. -/
def answersByUrl (table : List (Text × Response)) : Network := fun requests =>
  match requests.getLast?.bind fun last => table.lookup last.url with
  | some response => .ok response
  | none => .ok ⟨404, none, none, [], none⟩

def redirectTo (location : Text) : Response := ⟨302, some location, none, [], none⟩

def answerWith (bytes : List UInt8) : Response := ⟨200, none, none, [bytes], none⟩

/-- An advertisement of one commit. -/
def advertiseHead (sha : Text) : List UInt8 :=
  pktLine "# service=git-upload-pack\n" ++ flushPkt ++
    pktLine (sha ++ " HEAD\x00symref=HEAD:refs/heads/main\n") ++ flushPkt

/-- A relative redirect, and one to a host that the policy does not allow. -/
def movedSource : Network := answersByUrl [
  ("https://kody.codes/old.json", redirectTo "/new.json"),
  ("https://kody.codes/new.json", answerWith (utf8Encode "\x7b\x7d")),
  ("https://kody.codes/@kody/tools.git/info/refs?service=git-upload-pack",
    redirectTo "https://git.kody.codes/tools"),
  ("https://git.kody.codes/tools",
    answerWith (advertiseHead "41040cb4172e4466ea573a0021827c951ac25ed0")),
  ("https://kody.codes/@kody/tools.git/git-upload-pack", redirectTo "https://example.com/pack")]

def noPack : List UInt8 → Except Thrown GitObjects := fun _ =>
  .error (fetchFailure "Not a git packfile." 502)

def kodyHosts : SourcePolicy := ⟨["kody.codes", "*.kody.codes"], []⟩

theorem redirects_checked_movedSource :
    ((fetchAllowed simpleUrls.toUrlParser kodyHosts movedSource [] "https://kody.codes/old.json").sent =
        ["https://kody.codes/old.json", "https://kody.codes/new.json"] ∧
      SourceChain simpleUrls.toUrlParser kodyHosts movedSource [] downloadInit
        packageSourceLimits.maxRedirects
        (fetchAllowed simpleUrls.toUrlParser kodyHosts movedSource []
          "https://kody.codes/old.json").sent) ∧
    ((cloneGitSmartHttp simpleUrls kodyHosts movedSource [] noPack defaultLimits
        "https://kody.codes/@kody/tools" none none).upload =
          ["https://kody.codes/@kody/tools.git/git-upload-pack"] ∧
      CloneChecked simpleUrls kodyHosts movedSource [] defaultLimits.maxRedirects
        "https://kody.codes/@kody/tools"
        (cloneGitSmartHttp simpleUrls kodyHosts movedSource [] noPack defaultLimits
          "https://kody.codes/@kody/tools" none none)) := by
  have hchecked := redirects_checked simpleUrls simpleUrls_hosted kodyHosts movedSource []
  refine ⟨⟨?_, hchecked.1 _⟩, ?_, hchecked.2 _ _ _ _ _⟩
  · decide +kernel
  · decide +kernel

end KodyCelld.Packages
