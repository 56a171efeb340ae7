import KodyCelld.Apps.Origin
import KodyCelld.Blobs.BlobIndex
import KodyCelld.Lib.Hex
import KodyCelld.Lib.Links
import KodyCelld.Lib.NumberText
import KodyCelld.Lib.UriComponents

namespace KodyCelld.Blobs

open KodyCelld.Lib
open KodyCelld.Apps (encodeURIComponent maxTimeValue)

/-!
# Signed links to blobs (`blobs/keys.ts`, `index.ts`)

A link carries the user, the key and the expiry of a download, and an HMAC of the three under a key that
is derived for the user.

* `signBlobUrl`, `verifyBlobUrlSignature`, `handleSignedBlob` — the link, and the request that follows it;
* `Ideal`, `LinkUnforged` — HKDF has no collisions, and HMAC is not forged;
* `signedLink_reads` — a link is read back as it was signed, and serves until it expires;
* `signedLinks` — so is every link, and what is served was signed.

Beside the master key, which the environment holds, nothing is stored; the state lists the links that
were signed and those that were served, and nothing the source computes depends on it.
-/

/-! ### Users -/

/-- `randomId(prefix)`, with the UUID that was drawn. -/
def randomId (kind uuid : Text) : Text := kind ++ '_' :: uuid.filter fun c => decide (c ≠ '-')

/-- The id of a user: a text that is a segment of a path. -/
structure UserId where
  text : Text
  segment : text ∉ ([[], ".", ".."] : List Text)

/-- The ids that `createUser` mints. -/
def UserId.minted (uuid : Text) : UserId where
  text := randomId "user" uuid
  segment := by
    intro hmem
    have hlength : 5 ≤ (randomId "user" uuid).length := by
      unfold randomId
      rw [List.length_append]
      show 5 ≤ 4 + (_ + 1)
      omega
    have hshort : ∀ t ∈ ([[], ".", ".."] : List Text), t.length < 5 := by decide
    exact absurd hlength (Nat.not_le.mpr (hshort _ hmem))

/-! ### Links -/

/-- HKDF with SHA-256, from the key material, the salt and the info, and HMAC under a derived key. -/
structure LinkPlatform where
  Key : Type
  hkdf : (ikm salt info : List UInt8) → Key
  hmac : Key → List UInt8 → List UInt8
  length_hmac : ∀ key message, (hmac key message).length = 32

structure Link where
  userId : Text
  key : Text
  expiresAt : Lib.Num
  deriving DecidableEq, Repr

/-- The parts of a link that a request carries. -/
structure LinkRequest where
  link : Link
  signatureHex : Text
  deriving DecidableEq, Repr

/-- `/^[0-9a-f]{64}$/` -/
def isSignatureHex (text : Text) : Bool :=
  decide (text.length = 64) && text.all fun c => decide (c ∈ ("0123456789abcdef" : Text))

section
variable (p : LinkPlatform) (u : UrlSetters)

def signingKey (masterKey userId : Text) : p.Key :=
  p.hkdf (utf8Encode masterKey) (utf8Encode ("kody-celld:" ++ userId))
    (utf8Encode "kody-celld-blob-urls")

def signingPayload (link : Link) : List UInt8 :=
  utf8Encode (link.userId ++ '\x00' :: (link.key ++ '\x00' :: numberText link.expiresAt))

/-- The signature of a link. -/
def linkSignature (masterKey : Text) (link : Link) : List UInt8 :=
  p.hmac (signingKey p masterKey link.userId) (signingPayload link)

/-- `signBlobUrl`; `none` where `new URL` throws. -/
def signBlobUrl (masterKey baseUrl : Text) (link : Link) : Option Text :=
  (u.parse (stripSlashes baseUrl ++ ("/blobs/" ++ (encodeURIComponent link.userId ++ "/")))).map
    fun url =>
      let url := u.setPathname (url.pathname ++
        ['/'].intercalate ((link.key.splitOn '/').map encodeURIComponent)) url
      let url := u.setSearchParam "exp" (numberText link.expiresAt) url
      let url := u.setSearchParam "sig" (bytesToHex (linkSignature p masterKey link)) url
      url.href

def verifyBlobUrlSignature (masterKey : Text) (r : LinkRequest) (now : ℕ) : Bool :=
  match r.link.expiresAt with
  | .fin e =>
    if Lib.Num.lt (Lib.Num.mul (.fin e) (.fin 1000)) (.fin now) then false
    else if !isSignatureHex r.signatureHex then false
    else decide (linkSignature p masterKey r.link = hexToBytes r.signatureHex)
  | _ => false

/-- What a URL says; `none` where `decodeURIComponent` throws. -/
def readLink (url : Url) : Option LinkRequest :=
  let segments := (url.pathname.splitOn '/').filter fun s => !s.isEmpty
  match decodeURIComponent (segments.getD 1 []), (segments.drop 2).mapM decodeURIComponent with
  | some userId, some key =>
    some ⟨⟨userId, ['/'].intercalate key, ((getParam "exp" (queryParams url)).map numberOf).getD (.fin 0)⟩,
      (getParam "sig" (queryParams url)).getD []⟩
  | _, _ => none

/-- `handleSignedBlob`, up to the look-up of the blob. -/
def handleSignedBlob (masterKey method : Text) (url : Url) (now : ℕ) : Except Thrown Link :=
  if method ≠ "GET" ∧ method ≠ "HEAD" then
    .error (.kody "not_found" "Signed blob links are read-only." 405)
  else
    match readLink url with
    | none => .error (.error "URI malformed")
    | some r =>
      if r.link.userId = [] ∨ r.link.key = [] then
        .error (.kody "not_found" "Malformed blob link." 404)
      else if !verifyBlobUrlSignature p masterKey r now then
        .error (.kody "blob_link_invalid" "This blob link is invalid or has expired." 403)
      else .ok r.link

/-! ### Runs -/

/-- A link that was signed, with the master key of that time. -/
structure SignedLink where
  masterKey : Text
  link : Link
  deriving DecidableEq, Repr

structure LinkState where
  signed : List SignedLink
  served : List SignedLink
  deriving DecidableEq, Repr

/-- A link is signed, or a URL requested, under the master key of the environment. -/
inductive LinkEvent where
  | sign (masterKey : Text) (link : Link)
  | request (masterKey method : Text) (url : Url) (now : ℕ)

/-- One step; an expiry is a number of the language. -/
def linkStep (s : LinkState) : LinkEvent → Option LinkState
  | .sign masterKey link =>
    if link.expiresAt.IsDouble then some { s with signed := ⟨masterKey, link⟩ :: s.signed } else none
  | .request masterKey method url now =>
    match handleSignedBlob p masterKey method url now with
    | .ok link => some { s with served := ⟨masterKey, link⟩ :: s.served }
    | .error _ => some s

def freshLinks : LinkState := ⟨[], []⟩

/-- HKDF has no collisions. -/
def LinkPlatform.Ideal : Prop :=
  ∀ ikm ikm' salt salt' info, p.hkdf ikm salt info = p.hkdf ikm' salt' info → ikm = ikm' ∧ salt = salt'

/-- HMAC is not forged: a message whose code a request has was signed under that key. -/
def LinkUnforged (s : LinkState) : LinkEvent → Prop
  | .request masterKey _ url _ => ∀ r, readLink url = some r →
    linkSignature p masterKey r.link = hexToBytes r.signatureHex →
      ∃ l ∈ s.signed, signingKey p l.masterKey l.link.userId = signingKey p masterKey r.link.userId ∧
        signingPayload l.link = signingPayload r.link
  | _ => True

end

/-! ### Segments -/

section
variable {text : Text}

/-- What `encodeURIComponent` keeps, and its escapes, stay as they are in a path. -/
theorem mem_encodeURIComponent {c : Char} (h : c ∈ encodeURIComponent text) :
    keptInPath c = true ∧ c ≠ '/' ∧ c ≠ '\\' := by
  have hpercent : KeepsEscapes fun c => isLetter c || isDigit c || decide (c ∈ ("-_.!~*'()%" : Text)) := by
    unfold KeepsEscapes
    decide
  have hkept : (isLetter c || isDigit c || decide (c ∈ ("-_.!~*'()%" : Text))) = true := by
    obtain ⟨d, -, hd⟩ := List.mem_flatMap.mp h
    split at hd
    · rename_i hd'
      rw [List.mem_singleton.mp hd]
      have hall : ∀ c ∈ ("-_.!~*'()" : Text), c ∈ ("-_.!~*'()%" : Text) := by decide
      simp only [Bool.or_eq_true, decide_eq_true_eq] at hd' ⊢
      exact hd'.imp_right (hall d)
    · obtain ⟨escape, hescape, -, hmore⟩ := escape_spec d
      rw [hescape] at hd
      rcases List.mem_cons.mp hd with rfl | hd
      · exact hpercent _ List.mem_cons_self
      · exact hpercent _ (hmore c hd)
  have hascii : ∀ n : Fin 128,
      (isLetter (Char.ofNat n) || isDigit (Char.ofNat n) ||
        decide (Char.ofNat n ∈ ("-_.!~*'()%" : Text))) = true →
      keptInPath (Char.ofNat n) = true ∧ Char.ofNat n ≠ '/' ∧ Char.ofNat n ≠ '\\' := by
    decide +kernel
  have hlt : c.toNat < 128 := by
    have hmarks : ∀ c ∈ ("-_.!~*'()%" : Text), c.toNat < 128 := by decide
    rw [Bool.or_eq_true, decide_eq_true_eq] at hkept
    exact hkept.elim lt_of_alnum (hmarks c)
  have hc := hascii ⟨c.toNat, hlt⟩
  rw [Char.ofNat_toNat] at hc
  exact hc hkept

theorem decode_encodeURIComponent (text : Text) :
    decodeURIComponent (encodeURIComponent text) = some text :=
  decodeURIComponent_percentEncode (by decide) text

/-- **An encoded text is a segment** of a path, unless it leads elsewhere. -/
theorem plainSegment_encode (h : text ∉ ([[], ".", ".."] : List Text)) :
    PlainSegment (encodeURIComponent text) where
  nonempty := percentEncode_ne_nil fun hnil => h (hnil ▸ List.mem_cons_self)
  kept c hc := (mem_encodeURIComponent hc).1
  inside c hc := (mem_encodeURIComponent hc).2
  still := by
    by_contra hstill
    rw [Bool.not_eq_false] at hstill
    refine h ?_
    rcases isDotSegment_decode hstill (decode_encodeURIComponent text) with rfl | rfl
    · decide
    · decide

theorem mapM_decode (segs : List Text) :
    (segs.map encodeURIComponent).mapM decodeURIComponent = some segs := by
  induction segs with
  | nil => rfl
  | cons seg rest ih =>
    rw [List.map_cons, List.mapM_cons, decode_encodeURIComponent, ih]
    rfl

end

/-- What `normalizeBlobKey` returns is made of segments. -/
theorem normalizeBlobKey_segments {input : Json} {key : Text} (h : normalizeBlobKey input = .ok key) :
    ∀ s ∈ key.splitOn '/', s ∉ ([[], ".", ".."] : List Text) := by
  cases input with
  | str text =>
    simp only [normalizeBlobKey] at h
    split at h
    · cases h
    split at h
    · cases h
    split at h
    · cases h
    split at h
    · cases h
    rename_i hsegments
    obtain rfl := Except.ok.inj h
    intro s hs hmem
    exact hsegments (List.any_eq_true.mpr ⟨s, hs, decide_eq_true hmem⟩)
  | _ => cases h

/-! ### Reading a link -/

section
variable {p : LinkPlatform} {u : UrlSetters} {masterKey baseUrl : Text} {v : Url} {link : Link}

theorem isSignatureHex_bytesToHex {bytes : List UInt8} (h : bytes.length = 32) :
    isSignatureHex (bytesToHex bytes) = true := by
  unfold isSignatureHex
  rw [length_bytesToHex, h, Bool.and_eq_true]
  exact ⟨rfl, List.all_eq_true.mpr fun c hc => decide_eq_true (mem_bytesToHex hc)⟩

/-- The segments of a link's path. -/
def linkSegments (link : Link) : List Text :=
  "blobs" :: encodeURIComponent link.userId :: (link.key.splitOn '/').map encodeURIComponent

theorem linkSegments_plain (huser : link.userId ∉ ([[], ".", ".."] : List Text))
    (hkey : ∀ s ∈ link.key.splitOn '/', s ∉ ([[], ".", ".."] : List Text)) :
    ∀ s ∈ linkSegments link, PlainSegment s := by
  refine List.forall_mem_cons.mpr ⟨⟨by decide, by decide, by decide, by decide⟩, ?_⟩
  refine List.forall_mem_cons.mpr ⟨plainSegment_encode huser, ?_⟩
  intro s hs
  obtain ⟨seg, hseg, rfl⟩ := List.mem_map.mp hs
  exact plainSegment_encode (hkey seg hseg)

/-- **The URL of a link** has the segments of its path and the two parameters. -/
theorem signBlobUrl_spec (hu : u.Links) (hv : u.Known v) (hhttp : v.IsHttp)
    (hbase : stripSlashes baseUrl = v.origin) (hplain : ∀ s ∈ linkSegments link, PlainSegment s) :
    ∃ text url, signBlobUrl p u masterKey baseUrl link = some text ∧ u.parse text = some url ∧
      url.pathname = pathText (linkSegments link) ∧
      queryParams url = [(("exp" : Text), numberText link.expiresAt),
        (("sig" : Text), bytesToHex (linkSignature p masterKey link))] := by
  -- the directory of the user, read as it is written
  obtain ⟨w, hparse, hw, hpathname, hsearch⟩ := hu.directory v hv hhttp
    ["blobs", encodeURIComponent link.userId]
    (fun s hs => hplain s (List.mem_of_mem_take (i := 2) hs))
  have htext : stripSlashes baseUrl ++ ("/blobs/" ++ (encodeURIComponent link.userId ++ "/")) =
      v.origin ++ (pathText ["blobs", encodeURIComponent link.userId] ++ ['/']) := by
    rw [hbase]
    simp [pathText]
  have hknown : u.Known w := hu.hosted.lawful.reparses _ w hparse
  -- the key, appended segment by segment
  have hne : (link.key.splitOn '/').map encodeURIComponent ≠ [] := by
    rw [ne_eq, List.map_eq_nil_iff]
    exact List.splitOn_ne_nil '/' link.key
  have hpath : w.pathname ++ ['/'].intercalate ((link.key.splitOn '/').map encodeURIComponent) =
      pathText (linkSegments link) := by
    have hsplit : linkSegments link = ([("blobs" : Text), encodeURIComponent link.userId]) ++
      (link.key.splitOn '/').map encodeURIComponent := rfl
    rw [hsplit, pathText_append, pathText_eq_intercalate hne, hpathname, List.append_assoc]
    rfl
  obtain ⟨hknown', hsame, hsearch', -⟩ :=
    hu.hosted.setPathname (pathText (linkSegments link)) w hknown hw
  have hw' : (u.setPathname (pathText (linkSegments link)) w).IsHttp := by
    unfold Url.IsHttp
    rw [hsame.protocol]
    exact hw
  have hpathname' := hu.pathname w hknown hw (linkSegments link) (List.cons_ne_nil _ _) hplain
  -- the two parameters, in a query that was empty
  obtain ⟨hknownExp, hexp, hpathExp, hparamsExp⟩ :=
    hu.setSearchParam hknown' hw' "exp" (numberText link.expiresAt)
  obtain ⟨hknownSig, -, hpathSig, hparamsSig⟩ :=
    hu.setSearchParam hknownExp hexp "sig" (bytesToHex (linkSignature p masterKey link))
  have hempty : queryParams (u.setPathname (pathText (linkSegments link)) w) = [] := by
    unfold queryParams
    rw [hsearch', hsearch]
    rfl
  refine ⟨_, _, ?_, hknownSig, ?_, ?_⟩
  · unfold signBlobUrl
    rw [htext, hparse, Option.map_some]
    dsimp only
    rw [hpath]
  · rw [hpathSig, hpathExp, hpathname']
  · rw [hparamsSig, hparamsExp, hempty]
    rfl

/-- **A link is read back.** -/
theorem readLink_of_spec {url : Url} {t hex : Text} (hplain : ∀ s ∈ linkSegments link, PlainSegment s)
    (hpath : url.pathname = pathText (linkSegments link))
    (hparams : queryParams url = [(("exp" : Text), t), (("sig" : Text), hex)]) :
    readLink url = some ⟨⟨link.userId, link.key, numberOf t⟩, hex⟩ := by
  have hsegments : (url.pathname.splitOn '/').filter (fun s => !s.isEmpty) = linkSegments link := by
    rw [hpath, splitOn_pathText fun s hs => (hplain s hs).slash.2,
      List.filter_cons_of_neg (by simp)]
    refine List.filter_eq_self.mpr fun s hs => ?_
    have hne := (hplain s hs).nonempty
    simpa using hne
  have hkey : ['/'].intercalate (link.key.splitOn '/') = link.key := List.intercalate_splitOn '/'
  have huser : decodeURIComponent ((linkSegments link).getD 1 []) = some link.userId :=
    decode_encodeURIComponent _
  have hdrop : ((linkSegments link).drop 2).mapM decodeURIComponent = some (link.key.splitOn '/') :=
    mapM_decode _
  have hexp : getParam "exp" [(("exp" : Text), t), (("sig" : Text), hex)] = some t := rfl
  have hsig : getParam "sig" [(("exp" : Text), t), (("sig" : Text), hex)] = some hex := rfl
  unfold readLink
  dsimp only
  rw [hsegments, huser, hdrop, hparams, hexp, hsig]
  dsimp only
  rw [hkey]
  rfl

/-- What was signed verifies until it expires. -/
theorem verify_linkSignature {userId key : Text} {e : ℤ} {now : ℕ} (hnow : now ≤ maxTimeValue) :
    verifyBlobUrlSignature p masterKey
        ⟨⟨userId, key, .fin e⟩, bytesToHex (linkSignature p masterKey ⟨userId, key, .fin e⟩)⟩ now =
      decide ((now : ℤ) ≤ e * 1000) := by
  have hbound : now ≤ 2 ^ 53 := by
    unfold maxTimeValue at hnow
    omega
  have hmul : Lib.Num.mul (.fin (e : ℚ)) (.fin 1000) = toDouble ((e * 1000 : ℤ) : ℚ) := by
    show toDouble _ = _
    push_cast
    rfl
  have hhex : isSignatureHex (bytesToHex (linkSignature p masterKey ⟨userId, key, .fin e⟩)) = true :=
    isSignatureHex_bytesToHex (p.length_hmac _ _)
  unfold verifyBlobUrlSignature
  dsimp only
  rw [hmul, lt_toDouble_intCast _ hbound, hhex, hexToBytes_bytesToHex, decide_eq_true rfl]
  by_cases hle : (now : ℤ) ≤ e * 1000
  · have hlt : ¬ e * 1000 < (now : ℤ) := by omega
    simp [hle, hlt]
  · have hlt : e * 1000 < (now : ℤ) := by omega
    simp [hle, hlt]

/-- **A signed link serves what was signed until it expires.** -/
theorem signedLink_reads (hu : u.Links) (hv : u.Known v) (hhttp : v.IsHttp)
    (hbase : stripSlashes baseUrl = v.origin) (userId : UserId) {input : Json} {key : Text}
    (hkey : normalizeBlobKey input = .ok key) {e : ℤ} (he : toDouble (e : ℚ) = .fin e) :
    ∃ text url, signBlobUrl p u masterKey baseUrl ⟨userId.text, key, .fin e⟩ = some text ∧
      u.parse text = some url ∧ "/blobs/" <+: url.pathname ∧
      ∀ now ≤ maxTimeValue, handleSignedBlob p masterKey "GET" url now =
        if (now : ℤ) ≤ e * 1000 then .ok ⟨userId.text, key, .fin e⟩
        else .error (.kody "blob_link_invalid" "This blob link is invalid or has expired." 403) := by
  have hplain : ∀ s ∈ linkSegments ⟨userId.text, key, .fin e⟩, PlainSegment s :=
    linkSegments_plain userId.segment (normalizeBlobKey_segments hkey)
  obtain ⟨text, url, hsign, hparse, hpath, hparams⟩ := signBlobUrl_spec hu hv hhttp hbase hplain
  refine ⟨text, url, hsign, hparse, ?_, ?_⟩
  · rw [hpath]
    exact List.prefix_append ("/blobs/" : Text) _
  intro now hnow
  have hread := readLink_of_spec hplain hpath hparams
  rw [numberOf_numberText (n := .fin e) he] at hread
  have huser : userId.text ≠ [] := fun hnil => userId.segment (hnil ▸ List.mem_cons_self)
  have hkeyne : key ≠ [] := by
    rintro rfl
    exact normalizeBlobKey_segments hkey [] (by decide) (by decide)
  unfold handleSignedBlob
  rw [if_neg (by decide), hread]
  dsimp only
  rw [if_neg (by simp [huser, hkeyne]), verify_linkSignature hnow]
  by_cases hle : (now : ℤ) ≤ e * 1000
  · simp [hle]
  · simp [hle]

/-! ### What verifies was signed -/

/-- Two texts around the last place of a mark. -/
theorem eq_of_append_mark {mark : Char} {a a' b b' : Text} (hb : mark ∉ b) (hb' : mark ∉ b')
    (h : a ++ mark :: b = a' ++ mark :: b') : a = a' ∧ b = b' := by
  have hsplit : (a ++ mark :: b).splitOn mark = (a' ++ mark :: b').splitOn mark := by rw [h]
  have hlast : ∀ {a b : Text}, mark ∉ b → (a ++ mark :: b).splitOn mark = a.splitOn mark ++ [b] := by
    intro a b hb
    rw [List.splitOn_append_cons_self, List.splitOn_eq_singleton hb]
  rw [hlast hb, hlast hb'] at hsplit
  obtain ⟨-, hone⟩ := List.append_inj' hsplit rfl
  obtain rfl := List.singleton_inj.mp hone
  exact ⟨List.append_cancel_right h, rfl⟩

theorem utf8Encode_injective {a b : Text} (h : utf8Encode a = utf8Encode b) : a = b := by
  rw [← utf8DecodeFrom_utf8Encode a, h, utf8DecodeFrom_utf8Encode]

/-- The number of a payload has no separator. -/
theorem separator_notMem (n : Lib.Num) : '\x00' ∉ numberText n := by
  intro hmem
  rcases numberText_chars n _ hmem with hdigit | hletter | hmark
  · exact absurd hdigit (by decide)
  · exact absurd hletter (by decide)
  · exact absurd hmark (by decide)

/-- **A payload has one link** of the user whose key it is signed under. -/
theorem signingPayload_injective {l r : Link} (hl : l.expiresAt.IsDouble) (hr : r.expiresAt.IsDouble)
    (huser : l.userId = r.userId) (h : signingPayload l = signingPayload r) : l = r := by
  have htext := utf8Encode_injective h
  rw [huser, List.append_right_inj] at htext
  obtain ⟨hkey, hnumber⟩ :=
    eq_of_append_mark (separator_notMem _) (separator_notMem _) (List.cons.inj htext).2
  have hexpiry := numberText_injective hl hr hnumber
  cases l
  cases r
  rw [Link.mk.injEq]
  exact ⟨huser, hkey, hexpiry⟩

/-- The expiry that is read from a URL is a number. -/
theorem readLink_isDouble {url : Url} {r : LinkRequest} (h : readLink url = some r) :
    r.link.expiresAt.IsDouble := by
  unfold readLink at h
  dsimp only at h
  split at h
  · obtain rfl := Option.some.inj h
    dsimp only
    cases getParam "exp" (queryParams url) with
    | none => exact (rfl : toDouble 0 = .fin 0)
    | some t => exact numberOf_isDouble t
  · cases h

/-- What is served was read from the URL, and its code is that of its message. -/
theorem handleSignedBlob_ok {method : Text} {url : Url} {now : ℕ}
    (h : handleSignedBlob p masterKey method url now = .ok link) : ∃ r, readLink url = some r ∧
      r.link = link ∧ linkSignature p masterKey r.link = hexToBytes r.signatureHex := by
  unfold handleSignedBlob at h
  split at h
  · cases h
  cases hread : readLink url with
  | none =>
    rw [hread] at h
    cases h
  | some r =>
    rw [hread] at h
    dsimp only at h
    split at h
    · cases h
    split at h
    · cases h
    rename_i hverify
    refine ⟨r, rfl, Except.ok.inj h, ?_⟩
    rw [Bool.not_eq_true, Bool.not_eq_false'] at hverify
    unfold verifyBlobUrlSignature at hverify
    split at hverify
    · split at hverify
      · cases hverify
      split at hverify
      · cases hverify
      exact of_decide_eq_true hverify
    · cases hverify

/-- What was signed has a number for its expiry, and what was served was signed. -/
structure LinksOk (s : LinkState) : Prop where
  numbers : ∀ l ∈ s.signed, l.link.expiresAt.IsDouble
  served : ∀ l ∈ s.served, l ∈ s.signed

theorem LinksOk.fresh : LinksOk freshLinks := ⟨nofun, nofun⟩

/-- **Step lemma.** -/
theorem LinksOk.step {s s' : LinkState} {e : LinkEvent} (hideal : p.Ideal) (hs : LinksOk s)
    (hunforged : LinkUnforged p s e) (h : linkStep p s e = some s') : LinksOk s' := by
  cases e with
  | sign masterKey link =>
    simp only [linkStep] at h
    split at h
    · rename_i hnumber
      obtain rfl := Option.some.inj h
      exact ⟨List.forall_mem_cons.mpr ⟨hnumber, hs.numbers⟩,
        fun l hl => List.mem_cons_of_mem _ (hs.served l hl)⟩
    · cases h
  | request masterKey method url now =>
    simp only [linkStep] at h
    split at h
    · rename_i link hlink
      obtain rfl := Option.some.inj h
      obtain ⟨r, hread, rfl, hcode⟩ := handleSignedBlob_ok hlink
      refine ⟨hs.numbers, List.forall_mem_cons.mpr ⟨?_, hs.served⟩⟩
      -- the code was made for a link of that master key and that user
      obtain ⟨l, hl, hkey, hpayload⟩ := hunforged r hread hcode
      obtain ⟨hmaster, hsalt⟩ := hideal _ _ _ _ _ hkey
      have huser : l.link.userId = r.link.userId :=
        List.append_cancel_left (utf8Encode_injective hsalt)
      have hlink := signingPayload_injective (hs.numbers l hl) (readLink_isDouble hread) huser hpayload
      have heq : l = ⟨masterKey, r.link⟩ := by
        cases l
        rw [SignedLink.mk.injEq]
        exact ⟨utf8Encode_injective hmaster, hlink⟩
      exact heq ▸ hl
    · obtain rfl := Option.some.inj h
      exact hs

/-- **Signed links round-trip.**  A link that is signed for a user, a key and an integer expiry is read
    back as these and serves until the expiry; and in every run in which HMAC is not forged, what is
    served was signed, as one link, under the master key of the request. -/
theorem signedLinks (hu : u.Links) (hideal : p.Ideal) :
    (∀ masterKey baseUrl v, u.Known v → v.IsHttp → stripSlashes baseUrl = v.origin →
      ∀ (userId : UserId) input key, normalizeBlobKey input = .ok key →
      ∀ e : ℤ, toDouble (e : ℚ) = .fin e →
        ∃ text url, signBlobUrl p u masterKey baseUrl ⟨userId.text, key, .fin e⟩ = some text ∧
          u.parse text = some url ∧ "/blobs/" <+: url.pathname ∧
          ∀ now ≤ maxTimeValue, handleSignedBlob p masterKey "GET" url now =
            if (now : ℤ) ≤ e * 1000 then .ok ⟨userId.text, key, .fin e⟩
            else .error (.kody "blob_link_invalid" "This blob link is invalid or has expired." 403)) ∧
    ∀ s, Reaches (linkStep p) (LinkUnforged p) freshLinks s → ∀ l ∈ s.served, l ∈ s.signed := by
  constructor
  · intro masterKey baseUrl v hv hhttp hbase userId input key hkey e he
    exact signedLink_reads hu hv hhttp hbase userId hkey he
  · intro s hrun
    have hs : LinksOk s :=
      Reaches.invariant LinksOk (fun _ _ _ hs hunforged hstep => hs.step hideal hunforged hstep) hrun .fresh
    exact hs.served

/-! ### A download -/

/-- A derivation that keeps what it is given, and a code that is a sum. -/
def sumLinks : LinkPlatform where
  Key := List UInt8 × List UInt8
  hkdf ikm salt _ := (ikm, salt)
  hmac key message := List.replicate 31 0 ++ [(key.1 ++ key.2 ++ message).sum]
  length_hmac _ _ := rfl

theorem sumLinks_ideal : sumLinks.Ideal := fun _ _ _ _ _ h => Prod.mk.inj h

/-- A link of a user whose id was minted, to a key with a space. -/
def reportLink : Link := ⟨(UserId.minted "1-2").text, "a b/report.txt", .fin 100⟩

theorem signedLinks_report : ∃ text url,
    signBlobUrl sumLinks simpleUrls "m" "https://kody.test/" reportLink = some text ∧
      simpleUrls.parse text = some url ∧
      handleSignedBlob sumLinks "m" "GET" url 100000 = .ok reportLink ∧
      ∃ s : LinkState, s.served = [⟨"m", reportLink⟩] ∧ ∀ l ∈ s.served, l ∈ s.signed := by
  obtain ⟨hreads, hruns⟩ := signedLinks simpleUrls_links sumLinks_ideal
  have hparts : (⟨"kody.test", "/", [], []⟩ : Parts).Normal :=
    ⟨by decide, by decide, rfl, by decide, .inl rfl, .inl rfl⟩
  have hkey : normalizeBlobKey (.str "a b/report.txt") = .ok ("a b/report.txt" : Text) := by
    decide +kernel
  have hnumber : toDouble ((100 : ℤ) : ℚ) = .fin ((100 : ℤ) : ℚ) := toDouble_intCast (by norm_num)
  obtain ⟨text, url, hsign, hparse, -, hserves⟩ := hreads "m" "https://kody.test/" _
    (simpleParse_href hparts) (.inr rfl) (by decide) (UserId.minted "1-2") _ _ hkey 100 hnumber
  have hlink : (⟨(UserId.minted "1-2").text, "a b/report.txt", .fin ((100 : ℤ) : ℚ)⟩ : Link) =
      reportLink := by
    unfold reportLink
    push_cast
    rfl
  have hserve := hserves 100000 (by decide)
  rw [if_pos (by norm_num), hlink] at hserve
  rw [hlink] at hsign
  refine ⟨text, url, hsign, hparse, hserve, ⟨[⟨"m", reportLink⟩], [⟨"m", reportLink⟩]⟩, rfl, ?_⟩
  have hsigned : Step (linkStep sumLinks) (LinkUnforged sumLinks) freshLinks
      ⟨[⟨"m", reportLink⟩], []⟩ := by
    refine ⟨.sign "m" reportLink, trivial, ?_⟩
    show (if reportLink.expiresAt.IsDouble then _ else _) = _
    rw [if_pos (by decide +kernel)]
    rfl
  have hserved : Step (linkStep sumLinks) (LinkUnforged sumLinks) ⟨[⟨"m", reportLink⟩], []⟩
      ⟨[⟨"m", reportLink⟩], [⟨"m", reportLink⟩]⟩ := by
    refine ⟨.request "m" "GET" url 100000, ?_, ?_⟩
    · -- the request carries the code of the link that was signed
      intro r hread _
      obtain ⟨r', hread', hsame, -⟩ := handleSignedBlob_ok hserve
      obtain rfl := Option.some.inj (hread.symm.trans hread')
      exact ⟨_, List.mem_cons_self, by rw [hsame], by rw [hsame]⟩
    · simp only [linkStep]
      rw [hserve]
  exact hruns _ (.tail (.single hsigned) hserved)

end

end KodyCelld.Blobs
