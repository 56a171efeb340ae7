import KodyCelld.Lib.FormUrlencoded
import KodyCelld.Lib.SimpleUrls

namespace KodyCelld.Lib

/-!
# Links that are built piece by piece

* `setParam`, `UrlSetters.setSearchParam` — `url.searchParams.set(name, value)`;
* `UrlSetters.Links` — a URL has the path and the query that it was given;
* `simpleUrls_links` — a parser for which that holds.
-/

/-! ### Parameters -/

/-- `params.set(name, value)`: in place of the first one of the name, or at the end. -/
def setParam (name value : Text) : List (Text × Text) → List (Text × Text)
  | [] => [(name, value)]
  | param :: rest =>
    if param.1 = name then (name, value) :: rest.filter fun other => decide (other.1 ≠ name)
    else param :: setParam name value rest

/-- `params.get(name)` -/
def getParam (name : Text) (params : List (Text × Text)) : Option Text :=
  (params.find? fun param => decide (param.1 = name)).map Prod.snd

/-- `url.searchParams` -/
def queryParams (url : Url) : List (Text × Text) := formParse (url.search.drop 1)

/-- `url.searchParams.set(name, value)` -/
def UrlSetters.setSearchParam (u : UrlSetters) (name value : Text) (url : Url) : Url :=
  u.setSearch (formSerialize (setParam name value (queryParams url))) url

/-- The characters of a query that a form was written to. -/
def isFormChar (c : Char) : Bool := keptInForm c || decide (c ∈ ['+', '%', '&', '='])

/-- **What is set is read back** from the URL. -/
structure UrlSetters.Links (u : UrlSetters) : Prop where
  hosted : u.Hosted
  directory : ∀ v, u.Known v → v.IsHttp → ∀ segs, (∀ s ∈ segs, PlainSegment s) →
    ∃ w, u.parse (v.origin ++ (pathText segs ++ ['/'])) = some w ∧ w.IsHttp ∧
      w.pathname = pathText segs ++ ['/'] ∧ w.search = []
  pathname : ∀ w, u.Known w → w.IsHttp → ∀ segs, segs ≠ [] → (∀ s ∈ segs, PlainSegment s) →
    (u.setPathname (pathText segs) w).pathname = pathText segs
  search : ∀ w, u.Known w → w.IsHttp → ∀ text, text ≠ [] → (∀ c ∈ text, isFormChar c = true) →
    (u.setSearch text w).search = '?' :: text ∧ (u.setSearch text w).pathname = w.pathname

/-! ### Forms in queries -/

theorem isFormChar_of_mem {params : List (Text × Text)} {c : Char} (h : c ∈ formSerialize params) :
    isFormChar c = true := by
  have hpiece : ∀ {text : Text}, c ∈ formEncode text → isFormChar c = true := by
    intro text hc
    unfold isFormChar
    rcases mem_formEncode hc with rfl | rfl | hkept
    · decide
    · decide
    · rw [hkept]
      rfl
  unfold formSerialize at h
  induction params with
  | nil => cases h
  | cons param rest ih =>
    have hparam : c ∈ formEncode param.1 ++ '=' :: formEncode param.2 → isFormChar c = true := by
      intro hc
      rcases List.mem_append.mp hc with hname | hc
      · exact hpiece hname
      · rcases List.mem_cons.mp hc with rfl | hvalue
        · decide
        · exact hpiece hvalue
    cases rest with
    | nil =>
      rw [List.map_singleton, List.intercalate_singleton] at h
      exact hparam h
    | cons next more =>
      rw [List.map_cons, List.map_cons, List.intercalate_cons_cons] at h
      rcases List.mem_append.mp h with hfirst | hmore
      · rcases List.mem_append.mp hfirst with hfirst | hmark
        · exact hparam hfirst
        · rw [List.mem_singleton.mp hmark]
          decide
      · exact ih hmore

theorem formSerialize_ne_nil {params : List (Text × Text)} (h : params ≠ []) :
    formSerialize params ≠ [] := by
  intro hnil
  have hread := formParse_formSerialize params
  rw [hnil] at hread
  exact h hread.symm

theorem setParam_ne_nil (name value : Text) (params : List (Text × Text)) :
    setParam name value params ≠ [] := by
  cases params with
  | nil => exact List.cons_ne_nil _ _
  | cons param rest =>
    rw [setParam]
    split
    · exact List.cons_ne_nil _ _
    · exact List.cons_ne_nil _ _

section
variable {u : UrlSetters} {w : Url}

/-- **A parameter that is set**: the query has it, and nothing else of the URL changes. -/
theorem UrlSetters.Links.setSearchParam (hu : u.Links) (hw : u.Known w) (hhttp : w.IsHttp)
    (name value : Text) :
    u.Known (u.setSearchParam name value w) ∧ (u.setSearchParam name value w).IsHttp ∧
      (u.setSearchParam name value w).pathname = w.pathname ∧
      queryParams (u.setSearchParam name value w) = setParam name value (queryParams w) := by
  have hne := formSerialize_ne_nil (setParam_ne_nil name value (queryParams w))
  obtain ⟨hknown, hsame, -⟩ := hu.hosted.setSearch
    (formSerialize (setParam name value (queryParams w))) w hw hhttp
  obtain ⟨hsearch, hpathname⟩ := hu.search w hw hhttp _ hne fun c => isFormChar_of_mem
  refine ⟨hknown, ?_, hpathname, ?_⟩
  · show (u.setSearch _ w).protocol = _ ∨ (u.setSearch _ w).protocol = _
    rw [hsame.protocol]
    exact hhttp
  · show formParse ((u.setSearch _ w).search.drop 1) = _
    rw [hsearch, List.drop_succ_cons, List.drop_zero, formParse_formSerialize]

end

/-! ### Simple URLs -/

theorem keptInQuery_of_form {c : Char} (h : isFormChar c = true) : keptInQuery c = true := by
  have hascii : ∀ n : Fin 128, isFormChar (Char.ofNat n) = true → keptInQuery (Char.ofNat n) = true := by
    decide +kernel
  have hlt : c.toNat < 128 := by
    unfold isFormChar keptInForm at h
    rw [Bool.or_eq_true, Bool.or_eq_true, decide_eq_true_eq, decide_eq_true_eq] at h
    have hmarks : ∀ c ∈ ['*', '-', '.', '_'], c.toNat < 128 := by decide
    have hmarks' : ∀ c ∈ ['+', '%', '&', '='], c.toNat < 128 := by decide
    rcases h with (halnum | hmark) | hmark
    · exact lt_of_alnum halnum
    · exact hmarks c hmark
    · exact hmarks' c hmark
  have hkept := hascii ⟨c.toNat, hlt⟩
  rw [Char.ofNat_toNat] at hkept
  exact hkept h

/-- **The parser of simple URLs reads back what is set.** -/
theorem simpleUrls_links : simpleUrls.Links where
  hosted := simpleUrls_hosted
  directory v hv _ segs hsegs := by
    obtain ⟨p, hp, rfl⟩ := known_cases hv
    have hkept : ∀ c ∈ pathText segs ++ ['/'], keptInPath c = true :=
      List.forall_mem_append.mpr ⟨pathText_kept hsegs, by decide⟩
    have hhead : (pathText segs ++ ['/']).head? = some '/' := by
      cases segs with
      | nil => rfl
      | cons seg more => rfl
    have hnormal : (⟨p.host, pathText segs ++ ['/'], [], []⟩ : Parts).Normal :=
      ⟨hp.host, hp.hostChars, hhead, hkept, .inl rfl, .inl rfl⟩
    refine ⟨Parts.url ⟨p.host, pathText segs ++ ['/'], [], []⟩, ?_, .inr rfl, rfl, rfl⟩
    have hparse := simpleParse_href hnormal
    have htext : (Parts.url ⟨p.host, pathText segs ++ ['/'], [], []⟩).href =
        p.url.origin ++ (pathText segs ++ ['/']) := by
      simp only [Parts.url, Parts.after, List.append_nil, List.append_assoc]
    rwa [htext] at hparse
  pathname w hw _ segs hne hsegs := by
    have hhead : (pathText segs).head? = some '/' := by
      obtain ⟨seg, more, rfl⟩ := List.exists_cons_of_ne_nil hne
      rfl
    show percentEncode keptInPath (if (pathText segs).head? = some '/' then _ else _) = _
    rw [if_pos hhead, percentEncode_of_kept (pathText_kept hsegs)]
  search w hw _ text hne hchars := by
    refine ⟨?_, rfl⟩
    show component '?' keptInQuery text = _
    rw [component, if_neg hne, percentEncode_of_kept fun c hc => keptInQuery_of_form (hchars c hc)]

end KodyCelld.Lib
