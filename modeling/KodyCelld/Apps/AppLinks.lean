import KodyCelld.Apps.AppUrl
import KodyCelld.Lib.Pathnames
import KodyCelld.Lib.Separators

namespace KodyCelld.Apps

open KodyCelld.Lib
open KodyCelld.Packages (packageNamePattern isPlainName isNameChar isLowerAlnum packageNamePattern_chars
  isNameChar_of_plainName)
open KodyCelld.Secrets (isHexDigit)

/-!
# The URLs of package apps (`apps/app-url.ts`)

What `appUrl` builds, with a path behind it, and what `matchAppRequest` reads of it.

* `withPackage_mount`, `withPackage_mounted` — the package that a path is under, and back;
* `matchAppRequest_mounted` — the app of a request is mounted where its path starts;
* `appUrl_roundTrips` — the configurations and the paths for which user, package and path are read
  back.
-/

/-- The ids that `randomId('user')` mints. -/
def RegisteredId (userId : Text) : Prop :=
  ∃ digits : Text, digits.length = 32 ∧ digits.all isHexDigit = true ∧ userId = "user_" ++ digits

/-- What a URL leads to that is built for a user and a package, with a path behind it. -/
def LeadsTo (u : UrlParser) (config : AppOriginConfig) (userId packageName path : Text)
    (target : AppTarget) : Prop :=
  ∃ base url, appUrl config userId packageName = some base ∧ u.parse (base ++ path) = some url ∧
    matchAppRequest config url = some (.app target)

/-- **A URL that is read back**: the app it was built for, and the path as the parser reads it. -/
def ReadBack (u : UrlParser) (config : AppOriginConfig) (userId packageName path : Text) : Prop :=
  ∃ target, LeadsTo u config userId packageName path target ∧ target.userId = userId ∧
    target.packageName = packageName ∧ target.restPath = urlPathname path

/-- Under a wildcard the apex has to be a name, for the labels of the users to be put before it. -/
def Usable (config : AppOriginConfig) : Prop :=
  config.mode = .subdomain → ¬ IsAddress config.hostname

/-! ### Package names -/

section
variable {name tail rest userId pathPrefix origin : Text} {target : AppTarget}

theorem lt_of_isNameChar {c : Char} (h : isNameChar c = true) : c.toNat < 128 := by
  have hmarks : ∀ c ∈ ['.', '_', '-'], c.toNat < 128 := by decide
  simp only [isNameChar, isLowerAlnum, Bool.or_eq_true, beq_iff_eq] at h
  rcases h with ((hletter | hdot) | hunder) | hhyphen
  · refine lt_of_alnum ?_
    simp only [isLetter, Bool.or_eq_true]
    exact hletter.elim .inr fun hlow => .inl (.inl hlow)
  · exact hmarks c (by simp [hdot])
  · exact hmarks c (by simp [hunder])
  · exact hmarks c (by simp [hhyphen])

/-- What starts with neither a dot nor an escape is one segment of a path. -/
theorem plainSegment_of_start {c : Char} {rest : Text} (hstart : c ≠ '.' ∧ c ≠ '%')
    (hchars : ∀ d ∈ c :: rest, isNameChar d = true ∨ d = '@') : PlainSegment (c :: rest) := by
  have hall : ∀ d ∈ c :: rest, keptInPath d = true ∧ d ≠ '/' ∧ d ≠ '\\' := by
    intro d hd
    rcases hchars d hd with hname | rfl
    · have hascii : ∀ n : Fin 128, isNameChar (Char.ofNat n) = true →
          keptInPath (Char.ofNat n) = true ∧ Char.ofNat n ≠ '/' ∧ Char.ofNat n ≠ '\\' := by
        decide +kernel
      have hkept := hascii ⟨d.toNat, lt_of_isNameChar hname⟩
      rw [Char.ofNat_toNat] at hkept
      exact hkept hname
    · decide
  refine ⟨List.cons_ne_nil _ _, fun d hd => (hall d hd).1, fun d hd => (hall d hd).2, ?_⟩
  by_contra hstill
  rw [Bool.not_eq_false] at hstill
  rcases isDotSegment_head hstill with hhead | hhead
  · exact hstart.1 (Option.some.inj hhead)
  · exact hstart.2 (Option.some.inj hhead)

theorem plainSegment_of_plainName (h : isPlainName name = true) :
    PlainSegment name ∧ name.head? ≠ some '@' ∧ '/' ∉ name := by
  have hchars := fun d hd => @isNameChar_of_plainName name h d hd
  cases name with
  | nil => cases h
  | cons c rest =>
    rw [isPlainName, Bool.and_eq_true] at h
    have hne : ∀ d : Char, isLowerAlnum d = false → c ≠ d := by
      rintro d hd rfl
      rw [h.1] at hd
      cases hd
    refine ⟨plainSegment_of_start ⟨hne _ (by decide), hne _ (by decide)⟩ fun d hd => .inl (hchars d hd),
      fun hhead => hne '@' (by decide) (Option.some.inj hhead), fun hmem => ?_⟩
    exact absurd (hchars '/' hmem) (by decide)

/-- **The segments of a package name**: one or two, none of which leads elsewhere. -/
theorem packageName_segments (h : packageNamePattern name = true) :
    (∀ seg ∈ name.splitOn '/', PlainSegment seg) ∧
      ∀ more, nameSegments (name.splitOn '/' ++ more) = (name.splitOn '/').length := by
  unfold packageNamePattern at h
  split at h
  · rename_i body
    split at h
    · rename_i rest hdrop
      rw [Bool.and_eq_true] at h
      obtain ⟨hscope, hrest⟩ := h
      have hbody : body = body.takeWhile isNameChar ++ '/' :: rest := by
        rw [← hdrop, List.takeWhile_append_dropWhile]
      have hslash : '/' ∉ '@' :: body.takeWhile isNameChar := by
        intro hmem
        rcases List.mem_cons.mp hmem with heq | hmem
        · exact absurd heq (by decide)
        · exact (plainSegment_of_plainName hscope).2.2 hmem
      have hsplit : ('@' :: body).splitOn '/' = ['@' :: body.takeWhile isNameChar, rest] := by
        conv_lhs => rw [hbody]
        rw [← List.cons_append, List.splitOn_append_cons_self_of_not_mem hslash,
          List.splitOn_eq_singleton (plainSegment_of_plainName hrest).2.2]
      rw [hsplit]
      refine ⟨List.forall_mem_cons.mpr ⟨plainSegment_of_start (by decide) ?_,
        List.forall_mem_singleton.mpr (plainSegment_of_plainName hrest).1⟩, fun more => rfl⟩
      intro d hd
      rcases List.mem_cons.mp hd with rfl | hd
      · exact .inr rfl
      · exact .inl (isNameChar_of_plainName hscope hd)
    · cases h
  · obtain ⟨hplain, hhead, hslash⟩ := plainSegment_of_plainName h
    rw [List.splitOn_eq_singleton hslash]
    refine ⟨List.forall_mem_singleton.mpr hplain, fun more => ?_⟩
    rw [List.singleton_append, nameSegments, List.headD_cons, if_neg hhead]
    rfl

/-- **A package that a path is under** is found with what is behind it. -/
theorem withPackage_mount (h : packageNamePattern name = true)
    (htail : tail = [] ∨ tail.head? = some '/') :
    withPackage userId pathPrefix (packagesPath ++ name ++ tail) origin =
      .app ⟨userId, name, origin, pathPrefix ++ packagesPath ++ name,
        if tail = [] then ['/'] else tail⟩ := by
  obtain ⟨-, hcount⟩ := packageName_segments h
  obtain ⟨more, hsplit⟩ : ∃ more, (name ++ tail).splitOn '/' = name.splitOn '/' ++ more := by
    rcases htail with rfl | hslash
    · exact ⟨[], by rw [List.append_nil, List.append_nil]⟩
    · obtain ⟨rest, rfl⟩ := List.head?_eq_some_iff.mp hslash
      exact ⟨rest.splitOn '/', List.splitOn_append_cons_self ..⟩
  have hstart : packagesPath.isPrefixOf (packagesPath ++ (name ++ tail)) = true :=
    List.isPrefixOf_iff_prefix.mpr (List.prefix_append _ _)
  have hdrop : (packagesPath ++ (name ++ tail)).drop (packagesPath ++ name).length = tail := by
    rw [← List.append_assoc, List.drop_left]
  have hlength : ¬ (name.splitOn '/' ++ more).length < (name.splitOn '/').length := by
    rw [List.length_append]
    omega
  unfold withPackage
  simp only [List.append_assoc, hstart, List.drop_left, hsplit, hcount, if_neg hlength, List.take_left,
    List.intercalate_splitOn, h, hdrop, Bool.not_true, Bool.false_eq_true, if_false]

/-- A package that is found is one that the path is under. -/
theorem withPackage_mounted (h : withPackage userId pathPrefix rest origin = .app target) :
    ∃ tail, rest = packagesPath ++ target.packageName ++ tail ∧ target.userId = userId ∧
      target.restPath = if tail = [] then ['/'] else tail := by
  unfold withPackage at h
  split at h
  · cases h
  rename_i hstart
  rw [Bool.not_eq_true', Bool.not_eq_false] at hstart
  obtain ⟨body, rfl⟩ := List.isPrefixOf_iff_prefix.mp hstart
  rw [List.drop_left] at h
  dsimp only at h
  split at h
  · cases h
  split at h
  · cases h
  cases h
  have hpos : 0 < nameSegments (body.splitOn '/') := by
    unfold nameSegments
    split <;> omega
  obtain ⟨tail, htail⟩ := @join_take '/' (body.splitOn '/') _ hpos
  have hbody : body = ['/'].intercalate
      ((body.splitOn '/').take (nameSegments (body.splitOn '/'))) ++ tail :=
    (List.intercalate_splitOn '/').symm.trans htail
  have hdrop : (packagesPath ++ body).drop (packagesPath ++ ['/'].intercalate
      ((body.splitOn '/').take (nameSegments (body.splitOn '/')))).length = tail := by
    conv_lhs => arg 2; rw [hbody]
    rw [← List.append_assoc, List.drop_left]
  refine ⟨tail, ?_, rfl, by rw [hdrop]⟩
  rw [List.append_assoc, ← hbody]

end

/-! ### Requests -/

section
variable {config : AppOriginConfig} {url : Url} {name tail userId : Text} {target : AppTarget}

def mountSegments (config : AppOriginConfig) (userId packageName : Text) : List Text :=
  (if config.mode = .path then [("u" : Text), userId] else []) ++
    ("packages" : Text) :: packageName.splitOn '/'

theorem appMountPath_path (hmode : config.mode = .path) :
    appMountPath config userId name = "/u/" ++ (userId ++ (packagesPath ++ name)) := by
  unfold appMountPath packagesPath
  rw [hmode, List.append_assoc, List.append_assoc]

theorem appMountPath_label (hmode : config.mode = .subdomain) :
    appMountPath config userId name = packagesPath ++ name := by
  unfold appMountPath packagesPath
  rw [hmode]

/-- The path of a mount, segment by segment. -/
theorem appMountPath_eq :
    appMountPath config userId name = pathText (mountSegments config userId name) := by
  have hname : pathText (("packages" : Text) :: name.splitOn '/') = packagesPath ++ name := by
    rw [pathText_eq_intercalate (List.cons_ne_nil _ _)]
    obtain ⟨first, more, hsplit⟩ := List.exists_cons_of_ne_nil (List.splitOn_ne_nil '/' name)
    have hjoin : ['/'].intercalate (name.splitOn '/') = name := List.intercalate_splitOn '/'
    rw [hsplit] at hjoin ⊢
    rw [List.intercalate_cons_cons, hjoin]
    rfl
  have huser : pathText [("u" : Text), userId] = "/u/" ++ userId := by
    rw [pathText, List.flatMap_cons, List.flatMap_singleton]
    rfl
  unfold mountSegments
  rw [pathText_append, hname]
  cases hmode : config.mode with
  | path => rw [appMountPath_path hmode, if_pos rfl, huser, List.append_assoc]
  | subdomain => rw [appMountPath_label hmode, if_neg (by decide)]; rfl

/-- The pattern cuts a path behind the user. -/
theorem pathPattern_eq {pathname rest : Text} (h : pathPattern pathname = some (userId, rest)) :
    pathname = "/u/" ++ (userId ++ rest) := by
  unfold pathPattern at h
  dsimp only at h
  obtain ⟨hstart, h⟩ := Option.ite_none_right_eq_some.mp h
  obtain ⟨-, h⟩ := Option.ite_none_right_eq_some.mp h
  obtain ⟨body, rfl⟩ := List.isPrefixOf_iff_prefix.mp hstart
  rw [List.drop_left] at h
  obtain ⟨rfl, rfl⟩ := Prod.mk.inj (Option.some.inj h)
  rw [List.takeWhile_append_dropWhile]

/-- **The app of a request** is mounted where the path of the request starts. -/
theorem matchAppRequest_mounted (h : matchAppRequest config url = some (.app target)) :
    ∃ tail, url.pathname = appMountPath config target.userId target.packageName ++ tail ∧
      target.restPath = if tail = [] then ['/'] else tail := by
  unfold matchAppRequest at h
  split at h
  · cases h
  dsimp only at h
  split at h
  · rename_i hmode
    split at h
    · cases h
    split at h
    · cases h
    rename_i userId rest hpattern
    split at h
    · cases h
    obtain ⟨tail, hrest, huser, hpath⟩ := withPackage_mounted (Option.some.inj h)
    refine ⟨tail, ?_, hpath⟩
    rw [pathPattern_eq hpattern, hrest, appMountPath_path hmode, huser]
    simp only [List.append_assoc]
  · rename_i hmode
    split at h
    · split at h
      · cases h
      · cases h
    · split at h
      · cases h
      · split at h
        · cases h
        · obtain ⟨tail, hrest, -, hpath⟩ := withPackage_mounted (Option.some.inj h)
          refine ⟨tail, ?_, hpath⟩
          rw [hrest, appMountPath_label hmode]

/-- What is found at a path under the mount of an app. -/
def mountTarget (config : AppOriginConfig) (url : Url) (userId packageName tail : Text) : AppTarget where
  userId := userId
  packageName := packageName
  origin := config.protocol ++ "//" ++ url.host
  mountPath := appMountPath config userId packageName
  restPath := if tail = [] then ['/'] else tail

theorem packagesPath_isPrefixOf {rest : Text} : packagesPath.isPrefixOf (packagesPath ++ rest) = true :=
  List.isPrefixOf_iff_prefix.mpr (List.prefix_append _ _)

theorem pathPattern_user {rest : Text} (hslash : '/' ∉ userId) (hne : userId ≠ [])
    (hline : ∀ c ∈ packagesPath ++ rest, isLineEnd c = false) :
    pathPattern ("/u/" ++ (userId ++ (packagesPath ++ rest))) = some (userId, packagesPath ++ rest) := by
  have hstart : List.isPrefixOf ("/u/" : Text) ("/u/" ++ (userId ++ (packagesPath ++ rest))) = true :=
    List.isPrefixOf_iff_prefix.mpr (List.prefix_append _ _)
  have huser : ∀ c ∈ userId, decide (c ≠ '/') = true := fun c hc =>
    decide_eq_true fun heq => hslash (heq ▸ hc)
  have hstop : ∀ c, (packagesPath ++ rest).head? = some c → decide (c ≠ '/') = false := by
    intro c hc
    rw [← Option.some.inj hc]
    rfl
  have hall : (packagesPath ++ rest).all (fun c => !isLineEnd c) = true :=
    List.all_eq_true.mpr fun c hc => by rw [hline c hc]; rfl
  unfold pathPattern
  simp only [hstart, if_true, List.drop_left, takeWhile_stop huser hstop, dropWhile_stop huser hstop]
  rw [if_pos ⟨hne, packagesPath_isPrefixOf, hall⟩]

/-- What the patterns say of an id. -/
theorem RegisteredId.patterns (h : RegisteredId userId) :
    userId ≠ [] ∧ '/' ∉ userId ∧ pathUserIdPattern userId = true := by
  obtain ⟨digits, hlength, hhex, rfl⟩ := h
  have huser : ∀ c ∈ ("user_" : Text), (isLetter c || isDigit c || decide (c = '_') ||
      decide (c = '-')) = true := by decide
  have hall : ∀ c ∈ "user_" ++ digits, (isLetter c || isDigit c || decide (c = '_') ||
      decide (c = '-')) = true := by
    intro c hc
    rcases List.mem_append.mp hc with hc | hc
    · exact huser c hc
    · have hc := List.all_eq_true.mp hhex c hc
      have hz : 'f' ≤ 'z' := by decide
      simp only [isHexDigit, Bool.or_eq_true, Bool.and_eq_true, decide_eq_true_eq] at hc
      simp only [isLetter, Bool.or_eq_true, Bool.and_eq_true, decide_eq_true_eq]
      rcases hc with hdigit | ⟨hlow, hhigh⟩
      · exact .inl (.inl (.inr hdigit))
      · exact .inl (.inl (.inl (.inl ⟨hlow, Char.le_trans hhigh hz⟩)))
  have hne : ("user_" : Text) ++ digits ≠ [] := List.append_ne_nil_of_left_ne_nil (by decide) _
  refine ⟨hne, fun hmem => absurd (hall _ hmem) (by decide), ?_⟩
  have hshort : ("user_" ++ digits).length ≤ 64 := by
    rw [List.length_append, hlength]
    decide
  unfold pathUserIdPattern
  rw [List.all_eq_true.mpr hall, decide_eq_true hshort, List.isEmpty_eq_false_iff.mpr hne]
  rfl

/-- **A request under a mount**, in path mode, -/
theorem matchAppRequest_path (hmode : config.mode = .path) (huser : RegisteredId userId)
    (hname : packageNamePattern name = true) (htail : tail = [] ∨ tail.head? = some '/')
    (hhost : lower url.hostname = config.hostname)
    (hpath : url.pathname = appMountPath config userId name ++ tail)
    (hline : ∀ c ∈ url.pathname, isLineEnd c = false) :
    matchAppRequest config url = some (.app (mountTarget config url userId name tail)) := by
  obtain ⟨hne, hslash, hpattern⟩ := huser.patterns
  have hpathname : url.pathname = "/u/" ++ (userId ++ (packagesPath ++ (name ++ tail))) := by
    rw [hpath, appMountPath_path hmode]
    simp only [List.append_assoc]
  have hcut : pathPattern url.pathname = some (userId, packagesPath ++ (name ++ tail)) := by
    rw [hpathname]
    refine pathPattern_user hslash hne fun c hc => hline c ?_
    rw [hpathname]
    exact List.mem_append_right _ (List.mem_append_right _ hc)
  have hroot : url.pathname ≠ "/" := by
    intro hroot
    rw [hpathname] at hroot
    have hlength := congrArg List.length hroot
    have htwo : ("/u/" : Text).length = 3 := rfl
    have hone : ("/" : Text).length = 1 := rfl
    rw [List.length_append, htwo, hone] at hlength
    omega
  have horigin : isAppOriginHost config url = true := by
    unfold isAppOriginHost
    dsimp only
    rw [decide_eq_true hhost]
    rfl
  have hmount := @withPackage_mount name tail userId ("/u/" ++ userId)
    (config.protocol ++ "//" ++ url.host) hname htail
  rw [List.append_assoc] at hmount
  unfold matchAppRequest
  simp only [horigin, hmode, hroot, hcut, hpattern, hmount, Bool.not_true, Bool.false_eq_true, if_false]
  rw [mountTarget, appMountPath_path hmode]
  simp only [List.append_assoc]

/-- and under a wildcard. -/
theorem matchAppRequest_label (hmode : config.mode = .subdomain) {digits : Text}
    (hdigits : digits.length = 32 ∧ digits.all isHexDigit = true)
    (hname : packageNamePattern name = true) (htail : tail = [] ∨ tail.head? = some '/')
    (hhost : lower url.hostname = "user-" ++ digits ++ '.' :: config.hostname)
    (hpath : url.pathname = appMountPath config ("user_" ++ digits) name ++ tail) :
    matchAppRequest config url =
      some (.app (mountTarget config url ("user_" ++ digits) name tail)) := by
  have hpathname : url.pathname = packagesPath ++ (name ++ tail) := by
    rw [hpath, appMountPath_label hmode, List.append_assoc]
  have hroot : url.pathname ≠ "/" := by
    intro hroot
    rw [hpathname] at hroot
    have hlength := congrArg List.length hroot
    have hten : packagesPath.length = 10 := rfl
    have hone : ("/" : Text).length = 1 := rfl
    rw [List.length_append, hten, hone] at hlength
    omega
  have horigin : isAppOriginHost config url = true := by
    have hsuffix : ('.' :: config.hostname).isSuffixOf (lower url.hostname) = true := by
      rw [hhost]
      exact List.isSuffixOf_iff_suffix.mpr (List.suffix_append _ _)
    unfold isAppOriginHost
    dsimp only
    rw [hmode, hsuffix]
    simp
  have happex : lower url.hostname ≠ config.hostname := by
    intro heq
    have hlength := congrArg List.length (hhost.symm.trans heq)
    rw [List.length_append, List.length_cons] at hlength
    omega
  have hlabel : (lower url.hostname).take
      ((lower url.hostname).length - (config.hostname.length + 1)) = "user-" ++ digits := by
    have hlength : (lower url.hostname).length - (config.hostname.length + 1) =
        (("user-" : Text) ++ digits).length := by
      rw [hhost, List.length_append, List.length_cons]
      omega
    rw [hlength, hhost, List.take_left]
  have hpattern : userLabelPattern ("user-" ++ digits) = some digits := by
    have hstart : List.isPrefixOf ("user-" : Text) ("user-" ++ digits) = true :=
      List.isPrefixOf_iff_prefix.mpr (List.prefix_append _ _)
    unfold userLabelPattern
    simp only [hstart, if_true, List.drop_left]
    exact if_pos hdigits
  have hmount := @withPackage_mount name tail ("user_" ++ digits) []
    (config.protocol ++ "//" ++ url.host) hname htail
  rw [List.append_assoc] at hmount
  unfold matchAppRequest
  simp only [horigin, hmode, happex, hlabel, hpattern, hroot, if_false, Bool.not_true,
    Bool.false_eq_true]
  rw [hpathname, hmount, mountTarget, appMountPath_label hmode]
  rfl

end

/-! ### Round trips -/

section
variable {u : UrlParser} {config : AppOriginConfig} {baseUrl : Option Text} {publicUrl shown : Text}
  {name path userId : Text} {target : AppTarget}

/-- The host of a user's apps. -/
def hostFor (config : AppOriginConfig) (userId : Text) : Text :=
  match config.mode with
  | .path => config.hostname
  | .subdomain => "user-" ++ userId.drop 5 ++ '.' :: config.hostname

/-- A check that was passed. -/
theorem of_check {c : Prop} [Decidable c] {message : Text} {rest : Option AppConfigResult}
    (h : (if c then some (.error message) else rest) = some (.ok config shown)) :
    ¬ c ∧ rest = some (.ok config shown) := by
  by_cases hc : c
  · rw [if_pos hc] at h
    cases h
  · rw [if_neg hc] at h
    exact ⟨hc, h⟩

/-- A configuration is read of a URL. -/
theorem readAppConfig_ok (h : readAppConfig u baseUrl publicUrl = some (.ok config shown)) :
    ∃ text v mode, u.parse text = some v ∧ v.IsHttp ∧ config = configFrom mode v := by
  unfold readAppConfig at h
  dsimp only at h
  by_cases hraw : trim (baseUrl.getD []) = []
  · rw [if_pos hraw] at h
    cases h
  · rw [if_neg hraw] at h
    cases hparse : u.parse (baseText (trim (baseUrl.getD []))
        (wildcardPattern (trim (baseUrl.getD [])))) with
    | none =>
      rw [hparse] at h
      cases h
    | some v =>
      rw [hparse] at h
      obtain ⟨hhttp, h⟩ := of_check h
      obtain ⟨-, h⟩ := of_check h
      cases hpublic : u.parse publicUrl with
      | none =>
        rw [hpublic] at h
        cases h
      | some p =>
        rw [hpublic] at h
        obtain ⟨-, h⟩ := of_check h
        obtain ⟨-, h⟩ := of_check h
        obtain ⟨-, h⟩ := of_check h
        obtain ⟨hconfig, -⟩ := AppConfigResult.ok.inj (Option.some.inj h)
        rw [not_and_or, not_not, not_not] at hhttp
        exact ⟨_, v, _, hparse, hhttp, hconfig.symm⟩

theorem configFrom_host (mode : AppMode) (v : Url) :
    (configFrom mode v).hostname ++ (configFrom mode v).port = v.host := by
  unfold configFrom Url.host
  split
  · exact List.append_nil _
  · rfl

theorem hostLabel_user {digits : Text} (hlength : digits.length = 32)
    (hhex : digits.all isHexDigit = true) : HostLabel ("user-" ++ digits) where
  chars c hc := by
    have huser : ∀ c ∈ ("user-" : Text), isHostChar c = true ∧ c ≠ '.' := by decide
    rcases List.mem_append.mp hc with hc | hc
    · exact huser c hc
    · have hc := List.all_eq_true.mp hhex c hc
      refine ⟨?_, fun hdot => absurd (hdot ▸ hc) (by decide)⟩
      have hz : 'f' ≤ 'z' := by decide
      simp only [isHexDigit, Bool.or_eq_true, Bool.and_eq_true, decide_eq_true_eq] at hc
      simp only [isHostChar, Bool.or_eq_true, Bool.and_eq_true, decide_eq_true_eq]
      exact hc.elim (fun hdigit => .inl (.inl (.inl hdigit))) fun hletter =>
        .inl (.inl (.inr ⟨hletter.1, Char.le_trans hletter.2 hz⟩))
  first := ⟨'u', rfl, by decide⟩
  last hlast := by
    have hne : digits ≠ [] := by
      rintro rfl
      cases hlength
    rw [List.getLast?_append, List.getLast?_eq_some_getLast hne, Option.some_or] at hlast
    have hmem := List.all_eq_true.mp hhex _ (List.getLast_mem hne)
    rw [Option.some.inj hlast] at hmem
    exact absurd hmem (by decide)
  plain := by
    show (("er" : Text) ≠ "--")
    decide

theorem mountSegments_plain (huser : RegisteredId userId) (hname : packageNamePattern name = true) :
    ∀ seg ∈ mountSegments config userId name, PlainSegment seg := by
  have hpackages : PlainSegment "packages" := ⟨by decide, by decide, by decide, by decide⟩
  have hu : PlainSegment "u" := ⟨by decide, by decide, by decide, by decide⟩
  have hid : PlainSegment userId := by
    obtain ⟨digits, -, hhex, rfl⟩ := huser
    refine @plainSegment_of_start 'u' ("ser_" ++ digits) (by decide) fun d hd => .inl ?_
    have hstart : ∀ c ∈ ("user_" : Text), isNameChar c = true := by decide
    have hmem : d ∈ ("user_" : Text) ++ digits := hd
    rcases List.mem_append.mp hmem with hd | hd
    · exact hstart d hd
    · have hd := List.all_eq_true.mp hhex d hd
      have hz : 'f' ≤ 'z' := by decide
      simp only [isHexDigit, Bool.or_eq_true, Bool.and_eq_true, decide_eq_true_eq] at hd
      simp only [isNameChar, isLowerAlnum, Bool.or_eq_true, Bool.and_eq_true, decide_eq_true_eq]
      exact .inl (.inl (.inl (hd.imp id fun hletter => ⟨hletter.1, Char.le_trans hletter.2 hz⟩)))
  intro seg hseg
  rcases List.mem_append.mp hseg with hseg | hseg
  · split at hseg
    · rcases List.mem_cons.mp hseg with rfl | hseg
      · exact hu
      · rw [List.mem_singleton.mp hseg]
        exact hid
    · cases hseg
  · rcases List.mem_cons.mp hseg with rfl | hseg
    · exact hpackages
    · exact (packageName_segments hname).1 seg hseg

/-- What follows the origin is a path. -/
theorem isPath_mount (huser : RegisteredId userId) (hname : packageNamePattern name = true)
    (hpath : IsPath path) : IsPath (appMountPath config userId name ++ path) := by
  have hkept := pathText_kept (@mountSegments_plain config name userId huser hname)
  have hne : mountSegments config userId name ≠ [] :=
    List.append_ne_nil_of_right_ne_nil _ (List.cons_ne_nil _ _)
  rw [appMountPath_eq]
  refine ⟨.inr ?_, fun hmem => ?_, fun hmem => ?_⟩
  · obtain ⟨tail, htail⟩ := List.head?_eq_some_iff.mp (head_pathText hne)
    rw [htail]
    rfl
  · rcases List.mem_append.mp hmem with hmem | hmem
    · exact absurd (hkept _ hmem) (by decide)
    · exact hpath.alone.1 hmem
  · rcases List.mem_append.mp hmem with hmem | hmem
    · exact absurd (hkept _ hmem) (by decide)
    · exact hpath.alone.2 hmem

/-- **What is parsed** of the URL of an app with a path behind it. -/
theorem appUrl_parsed (hu : u.OriginPaths)
    (hconfig : readAppConfig u baseUrl publicUrl = some (.ok config shown))
    (huser : RegisteredId userId) (hname : packageNamePattern name = true) (hpath : IsPath path) :
    ∃ base, appUrl config userId name = some base ∧
      (¬ Usable config → u.parse (base ++ path) = none) ∧
      (Usable config → ∃ url, u.parse (base ++ path) = some url ∧
        lower url.hostname = hostFor config userId ∧
        url.pathname = urlPathname (appMountPath config userId name ++ path)) := by
  obtain ⟨text, v, mode, hparse, hhttp, rfl⟩ := readAppConfig_ok hconfig
  have hwhole := @isPath_mount (configFrom mode v) name path userId huser hname hpath
  have hlower := hu.lower text v hparse hhttp
  have hhost := configFrom_host mode v
  cases mode with
  | path =>
    refine ⟨_, rfl, fun hnot => absurd (fun hmode => by cases hmode) hnot, fun _ => ?_⟩
    obtain ⟨w, hw, hleads⟩ := hu.path text v hparse hhttp _ hwhole
    refine ⟨w, ?_, ?_, hleads.pathname⟩
    · rw [← hw, ← hhost]
      simp only [List.append_assoc]
      rfl
    · rw [hleads.hostname, hlower]
      rfl
  | subdomain =>
    obtain ⟨digits, hlength, hhex, rfl⟩ := huser
    have hlabel := hostLabel_user hlength hhex
    have hpattern : userIdPattern ("user_" ++ digits) = some digits := by
      have hstart : List.isPrefixOf ("user_" : Text) ("user_" ++ digits) = true :=
        List.isPrefixOf_iff_prefix.mpr (List.prefix_append _ _)
      unfold userIdPattern
      simp only [hstart, if_true, List.drop_left]
      exact if_pos ⟨hlength, hhex⟩
    have horigin : appOrigin (configFrom .subdomain v) ("user_" ++ digits) =
        some (v.protocol ++ "//" ++ ("user-" ++ digits) ++ '.' :: v.host) := by
      show (userIdPattern _).map _ = _
      rw [hpattern, ← hhost, Option.map_some]
      simp only [List.append_assoc]
      rfl
    refine ⟨_, by rw [appUrl, horigin]; rfl, fun hnot => ?_, fun husable => ?_⟩
    · have haddress : IsAddress v.hostname := by
        by_contra hnone
        exact hnot fun _ => hnone
      rw [List.append_assoc]
      exact hu.address text v hparse hhttp haddress _ hlabel _ hwhole
    · obtain ⟨w, hw, hleads⟩ := hu.label text v hparse hhttp (husable rfl) _ hlabel _ hwhole
      refine ⟨w, by rw [List.append_assoc]; exact hw, ?_, hleads.pathname⟩
      have hdrop : ("user_" ++ digits).drop 5 = digits := rfl
      have hjoin : lower (("user-" ++ digits) ++ '.' :: v.hostname) =
          lower ("user-" ++ digits) ++ '.' :: lower v.hostname := List.map_append
      rw [hleads.hostname, hjoin, hlower, lower_host fun c hc => (hlabel.chars c hc).1]
      show _ = "user-" ++ ("user_" ++ digits).drop 5 ++ _
      rw [hdrop]
      rfl

/-- A request to the host of a user, under the mount of a package. -/
theorem matchAppRequest_mount {url : Url} {tail : Text} (huser : RegisteredId userId)
    (hname : packageNamePattern name = true) (htail : tail = [] ∨ tail.head? = some '/')
    (hhost : lower url.hostname = hostFor config userId)
    (hpath : url.pathname = appMountPath config userId name ++ tail)
    (hline : ∀ c ∈ url.pathname, isLineEnd c = false) :
    matchAppRequest config url = some (.app (mountTarget config url userId name tail)) := by
  unfold hostFor at hhost
  split at hhost
  · rename_i hmode
    exact matchAppRequest_path hmode huser hname htail hhost hpath hline
  · rename_i hmode
    obtain ⟨digits, hlength, hhex, rfl⟩ := huser
    have hdrop : ("user_" ++ digits).drop 5 = digits := rfl
    rw [hdrop] at hhost
    exact matchAppRequest_label hmode ⟨hlength, hhex⟩ hname htail hhost hpath

/-- **A path that stays** leads to the app that the URL was built for. -/
theorem leadsTo_stays (hu : u.OriginPaths)
    (hconfig : readAppConfig u baseUrl publicUrl = some (.ok config shown))
    (huser : RegisteredId userId) (hname : packageNamePattern name = true) (hpath : IsPath path)
    (hstays : ¬ Climbs path) (husable : Usable config) : ∃ url tail,
      (if tail = [] then ['/'] else tail) = urlPathname path ∧
      ∀ target, LeadsTo u config userId name path target ↔
        target = mountTarget config url userId name tail := by
  obtain ⟨base, hbase, -, hparsed⟩ := appUrl_parsed hu hconfig huser hname hpath
  obtain ⟨url, hparse, hhost, hpathname⟩ := hparsed husable
  have hplain := @mountSegments_plain config name userId huser hname
  have hne : mountSegments config userId name ≠ [] :=
    List.append_ne_nil_of_right_ne_nil _ (List.cons_ne_nil _ _)
  obtain ⟨tail, hunder, htail⟩ := (stays_iff hplain hne hpath).mpr hstays
  rw [← appMountPath_eq] at hunder
  have hslash : tail = [] ∨ tail.head? = some '/' := by
    by_cases hnil : tail = []
    · exact .inl hnil
    · rw [if_neg hnil] at htail
      rw [htail]
      exact .inr head_urlPathname
  have hline : ∀ c ∈ url.pathname, isLineEnd c = false := by
    intro c hc
    rw [hpathname] at hc
    have hkept := urlPathname_kept c hc
    refine decide_eq_false fun hmem => ?_
    have hends : ∀ d ∈ ['\n', '\r', '\u2028', '\u2029'], keptInPath d = false := by decide
    rw [hends c hmem] at hkept
    cases hkept
  have hmatch := matchAppRequest_mount huser hname hslash hhost (hpathname.trans hunder) hline
  refine ⟨url, tail, htail, fun target => ⟨?_, ?_⟩⟩
  · rintro ⟨base', url', hbase', hparse', hmatch'⟩
    obtain rfl := Option.some.inj (hbase.symm.trans hbase')
    obtain rfl := Option.some.inj (hparse.symm.trans hparse')
    exact (AppRequestMatch.app.inj (Option.some.inj (hmatch.symm.trans hmatch'))).symm
  · rintro rfl
    exact ⟨base, url, hbase, hparse, hmatch⟩

/-- **App URLs are read back** if and only if the path stays under the app and, under a wildcard, the
    apex is a name; and those of two users or packages then lead to two apps. -/
theorem appUrl_roundTrips (hu : u.OriginPaths)
    (hconfig : readAppConfig u baseUrl publicUrl = some (.ok config shown)) :
    (∀ userId name path, RegisteredId userId → packageNamePattern name = true → IsPath path →
      (ReadBack u config userId name path ↔ Usable config ∧ ¬ Climbs path)) ∧
    ∀ userId name path target userId' name' path' target',
      RegisteredId userId → packageNamePattern name = true → IsPath path → ¬ Climbs path →
      RegisteredId userId' → packageNamePattern name' = true → IsPath path' → ¬ Climbs path' →
      LeadsTo u config userId name path target → LeadsTo u config userId' name' path' target' →
      (userId, name) ≠ (userId', name') →
      (target.userId, target.packageName) ≠ (target'.userId, target'.packageName) := by
  -- where the parser refuses the URL nothing is read back
  have husable : ∀ {userId name path target}, RegisteredId userId → packageNamePattern name = true →
      IsPath path → LeadsTo u config userId name path target → Usable config := by
    rintro userId name path target huser hname hpath ⟨base, url, hbase, hparse, -⟩
    obtain ⟨base', hbase', hnone, -⟩ := appUrl_parsed hu hconfig huser hname hpath
    obtain rfl := Option.some.inj (hbase.symm.trans hbase')
    by_contra hnot
    rw [hnone hnot] at hparse
    cases hparse
  constructor
  · intro userId name path huser hname hpath
    constructor
    · rintro ⟨target, hleads, rfl, rfl, hrest⟩
      have hok := husable huser hname hpath hleads
      refine ⟨hok, ?_⟩
      obtain ⟨base, url, hbase, hparse, hmatch⟩ := hleads
      obtain ⟨tail, hpathname, htail⟩ := matchAppRequest_mounted hmatch
      obtain ⟨base', hbase', -, hparsed⟩ := appUrl_parsed hu hconfig huser hname hpath
      obtain ⟨url', hparse', -, hpathname'⟩ := hparsed hok
      obtain rfl := Option.some.inj (hbase.symm.trans hbase')
      obtain rfl := Option.some.inj (hparse.symm.trans hparse')
      have hplain := @mountSegments_plain config target.packageName target.userId huser hname
      have hne : mountSegments config target.userId target.packageName ≠ [] :=
        List.append_ne_nil_of_right_ne_nil _ (List.cons_ne_nil _ _)
      refine (stays_iff hplain hne hpath).mp ⟨tail, ?_, htail.symm.trans hrest⟩
      rw [← appMountPath_eq, ← hpathname', hpathname]
    · rintro ⟨hok, hstays⟩
      obtain ⟨url, tail, htail, hleads⟩ := leadsTo_stays hu hconfig huser hname hpath hstays hok
      exact ⟨_, (hleads _).mpr rfl, rfl, rfl, htail⟩
  · intro userId name path target userId' name' path' target' huser hname hpath hstays huser' hname'
      hpath' hstays' hleads hleads' hne
    have hok := husable huser hname hpath hleads
    obtain ⟨_, _, -, honly⟩ := leadsTo_stays hu hconfig huser hname hpath hstays hok
    obtain ⟨_, _, -, honly'⟩ := leadsTo_stays hu hconfig huser' hname' hpath' hstays' hok
    rw [(honly target).mp hleads, (honly' target').mp hleads']
    exact hne

end

/-! ### Two configurations -/

def someDigits : Text := "0123456789abcdef0123456789abcdef"

def someUserId : Text := "user_" ++ someDigits

theorem someUserId_registered : RegisteredId someUserId := ⟨someDigits, by decide, by decide, rfl⟩

def wildcardConfig (hostname : Text) : AppOriginConfig := ⟨.subdomain, "https:", hostname, []⟩

/-- A path with dots that stays is read back. -/
theorem appUrl_readsBack :
    ReadBack domainUrls (wildcardConfig "apps.dev") someUserId "@kody/notes" "/a/../b.css" ↔
      Usable (wildcardConfig "apps.dev") ∧ ¬ Climbs "/a/../b.css" :=
  (@appUrl_roundTrips domainUrls (wildcardConfig "apps.dev") (some "https://*.apps.dev")
    "https://kody.dev" "https://*.apps.dev" domainUrls_originPaths (by decide +kernel)).1
    someUserId "@kody/notes" "/a/../b.css" someUserId_registered (by decide)
    ⟨.inr rfl, by decide, by decide⟩

/-- A path that climbs out of one app into another; and an address under a wildcard, where no app has a
    URL. -/
theorem appUrl_strays :
    (readAppConfig domainUrls (some "https://*.apps.dev") "https://kody.dev" =
        some (.ok (wildcardConfig "apps.dev") "https://*.apps.dev") ∧
      ((appUrl (wildcardConfig "apps.dev") someUserId "notes").bind fun base =>
          (domainUrls.parse (base ++ "/../wiki")).bind (matchAppRequest (wildcardConfig "apps.dev"))) =
        some (.app ⟨someUserId, "wiki", "https://user-" ++ someDigits ++ ".apps.dev",
          "/packages/wiki", "/"⟩)) ∧
    readAppConfig domainUrls (some "https://*.127.0.0.1") "https://kody.dev" =
        some (.ok (wildcardConfig "127.0.0.1") "https://*.127.0.0.1") ∧
      ((appUrl (wildcardConfig "127.0.0.1") someUserId "notes").bind domainUrls.parse) = none := by
  decide +kernel

end KodyCelld.Apps
