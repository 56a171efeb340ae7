import KodyCelld.Execute.ModuleGraph

namespace KodyCelld.Execute

open KodyCelld.Lib

/-!
# The module paths of fetched URLs (`execute/npm-resolver.ts`)

`resolveNpmModules` keeps each module under the path that `pathForUrl` makes of its URL, and makes
imports relative to these paths. The path does not tell every two URLs apart.

* `pathForUrl_eq_iff` — two URLs share a path exactly if they are `Blurred`;
* `blurred_fragment`, `blurred_extension`, `blurred_marks` — ways in which that happens;
* `plainPath_pathForUrl` — when a path can be reached by a relative specifier;
* `npmLoop_walks` — the loop visits the URLs that the imports reach, each once;
* `npm_modules_sound` — every module is kept under a path of its own and every import reaches it,
  exactly if no two URLs of the run are blurred and all of them have plain paths.
-/

/-! ### Paths that blur -/

def keptInPath (c : Char) : Bool := isDigit c || isLetter c || c ∈ ['@', '.', '_', '/', '-']

/-- The address that a module path is made from: the query with its runs of other characters
    squeezed, and the extension that is added. -/
def spelledPath (url : Url) : Text :=
  url.host ++ url.pathname ++ (if url.search ≠ [] then "__" ++ underscored url.search else []) ++
    if endsWith url.pathname ".js" || endsWith url.pathname ".mjs" then [] else ".js"

/-- Characters that look the same in a module path: equal ones, and any two that are underscores or
    no characters of paths. -/
def Blurs (c d : Char) : Prop :=
  c = d ∨ ((c = '_' ∨ keptInPath c = false) ∧ (d = '_' ∨ keptInPath d = false))

/-- **URLs that blur**: their addresses look the same in a module path. -/
def Blurred (a b : Url) : Prop := List.Forall₂ Blurs (spelledPath a) (spelledPath b)

/-- What a character is in a module path. -/
def blur (c : Char) : Char := if keptInPath c then c else '_'

theorem blur_eq_iff {c d : Char} : blur c = blur d ↔ Blurs c d := by
  have hmark : keptInPath '_' = true := by decide
  unfold blur Blurs
  cases hc : keptInPath c with
  | true =>
    cases hd : keptInPath d with
    | true =>
      simp only [if_true, Bool.true_eq_false, or_false]
      constructor
      · exact .inl
      · rintro (h | ⟨rfl, rfl⟩)
        · exact h
        · rfl
    | false =>
      simp only [if_true, Bool.false_eq_true, if_false, Bool.true_eq_false, or_false, or_true,
        and_true]
      constructor
      · exact .inr
      · rintro (rfl | h)
        · exact absurd (hc.symm.trans hd) (by decide)
        · exact h
  | false =>
    cases hd : keptInPath d with
    | true =>
      simp only [if_true, Bool.false_eq_true, if_false, Bool.true_eq_false, or_false, or_true,
        true_and]
      constructor
      · exact fun h => .inr h.symm
      · rintro (rfl | h)
        · exact absurd (hd.symm.trans hc) (by decide)
        · exact h.symm
    | false => simp

theorem map_eq_iff_forall₂ {α β : Type} {f : α → β} {as bs : List α} :
    as.map f = bs.map f ↔ List.Forall₂ (fun a b => f a = f b) as bs := by
  rw [← List.forall₂_eq_eq_eq, List.forall₂_map_left_iff, List.forall₂_map_right_iff]

theorem pathForUrl_spelled (url : Url) : pathForUrl url = "npm/" ++ (spelledPath url).map blur := by
  have hending : (if endsWith url.pathname ".js" || endsWith url.pathname ".mjs" then ([] : Text)
      else ".js").map blur =
        if endsWith url.pathname ".js" || endsWith url.pathname ".mjs" then [] else ".js" := by
    split
    · rfl
    · decide
  unfold pathForUrl spelledPath
  rw [List.map_append, hending]
  exact List.append_assoc _ _ _

/-- **Two URLs share a module path** exactly if they blur. -/
theorem pathForUrl_eq_iff {a b : Url} : pathForUrl a = pathForUrl b ↔ Blurred a b := by
  rw [pathForUrl_spelled, pathForUrl_spelled, List.append_cancel_left_eq, map_eq_iff_forall₂]
  unfold Blurred
  simp only [blur_eq_iff]

/-! ### Paths that are reached -/

/-- A URL whose path can be reached: no part before its last is empty or a dot. -/
def PlainUrl (url : Url) : Prop :=
  ∀ part ∈ ((url.host ++ url.pathname).splitOn '/').dropLast, PlainPart part

/-- The part that the extension ends is plain. -/
theorem plainPart_of_mem {part : Text} (h : 's' ∈ part) : PlainPart part := by
  refine ⟨List.ne_nil_of_mem h, ?_, ?_⟩
  · rintro rfl
    exact absurd h (by decide)
  · rintro rfl
    exact absurd h (by decide)

theorem blur_eq_mark {c d : Char} (hd : keptInPath d = true) (hmark : d ≠ '_') :
    blur c = d ↔ c = d := by
  unfold blur
  split
  · rfl
  · rename_i hc
    constructor
    · exact fun h => absurd h.symm hmark
    · rintro rfl
      exact absurd hd hc

/-- Blurring keeps the parts of a path apart. -/
theorem splitOn_map_blur (text : Text) :
    (text.map blur).splitOn '/' = (text.splitOn '/').map fun part => part.map blur := by
  have hslash : ∀ c, blur c = '/' ↔ c = '/' := fun c => blur_eq_mark (by decide) (by decide)
  induction text with
  | nil => rfl
  | cons c text ih =>
    by_cases hc : c = '/'
    · have hblur : blur c = '/' := (hslash c).mpr hc
      have hsplit : ∀ rest : Text, ('/' :: rest).splitOn '/' = [] :: rest.splitOn '/' :=
        fun rest => List.splitOn_append_cons_self_of_not_mem List.not_mem_nil rest
      rw [List.map_cons, hblur, hc, hsplit, hsplit, ih]
      rfl
    · have hblur : blur c ≠ '/' := fun h => hc ((hslash c).mp h)
      rw [List.map_cons, List.splitOn_cons_eq_if_modifyHead, List.splitOn_cons_eq_if_modifyHead,
        if_neg (by simpa using hblur), if_neg (by simpa using hc), ih]
      cases text.splitOn '/' with
      | nil => rfl
      | cons part parts => rfl

theorem plainPart_map_blur {part : Text} : PlainPart (part.map blur) ↔ PlainPart part := by
  have hdot : ∀ c, blur c = '.' ↔ c = '.' := fun c => blur_eq_mark (by decide) (by decide)
  have hone : part.map blur = ['.'] ↔ part = ['.'] := by
    cases part with
    | nil => simp
    | cons c rest => simp [hdot]
  have htwo : part.map blur = ['.', '.'] ↔ part = ['.', '.'] := by
    cases part with
    | nil => simp
    | cons c rest =>
      cases rest with
      | nil => simp
      | cons d rest => simp [hdot]
  have hspell : (".." : Text) = ['.', '.'] := by decide
  have hspell' : ("." : Text) = ['.'] := by decide
  unfold PlainPart
  rw [hspell, hspell', ne_eq, ne_eq, ne_eq, ne_eq, ne_eq, ne_eq, hone, htwo, List.map_eq_nil_iff]

theorem underscored_slash (text : Text) : '/' ∉ underscored text := by
  induction text with
  | nil => exact List.not_mem_nil
  | cons c rest ih =>
    rw [underscored]
    split
    · rename_i hc
      rw [List.mem_cons, not_or]
      refine ⟨?_, ih⟩
      rintro rfl
      exact absurd hc (by decide)
    · split
      · rename_i more hmore
        rwa [hmore] at ih
      · rw [List.mem_cons, not_or]
        exact ⟨by decide, ih⟩

/-- More text without slashes joins the last part. -/
theorem splitOn_append_last (text : Text) {tail : Text} (h : '/' ∉ tail) : ∃ front last,
    text.splitOn '/' = front ++ [last] ∧ (text ++ tail).splitOn '/' = front ++ [last ++ tail] ∧
      ∀ c ∈ text.getLast?, c ≠ '/' → c ∈ last := by
  cases hsplit : splitLast '/' text with
  | none =>
    have hnone := splitLast_eq_none.mp hsplit
    refine ⟨[], text, List.splitOn_eq_singleton hnone, List.splitOn_eq_singleton ?_,
      fun c hc _ => List.mem_of_mem_getLast? hc⟩
    rw [List.mem_append, not_or]
    exact ⟨hnone, h⟩
  | some found =>
    obtain ⟨before, after⟩ := found
    obtain ⟨rfl, hafter⟩ := eq_of_splitLast hsplit
    refine ⟨before.splitOn '/', after, ?_, ?_, ?_⟩
    · rw [List.splitOn_append_cons_self, List.splitOn_eq_singleton hafter]
    · have hnone : '/' ∉ after ++ tail := by
        rw [List.mem_append, not_or]
        exact ⟨hafter, h⟩
      rw [List.append_assoc, List.cons_append, List.splitOn_append_cons_self,
        List.splitOn_eq_singleton hnone]
    · intro c hc hne
      rw [List.getLast?_append_of_ne_nil _ (List.cons_ne_nil _ _)] at hc
      rcases List.mem_cons.mp (List.mem_of_mem_getLast? hc) with rfl | hmem
      · exact absurd rfl hne
      · exact hmem

/-- What follows the path of a URL in its module path; one of the two ends in an `s`. -/
theorem spelledPath_tail (url : Url) : ∃ tail, spelledPath url = url.host ++ url.pathname ++ tail ∧
    '/' ∉ tail ∧ ('s' ∈ tail ∨ (url.host ++ url.pathname).getLast? = some 's') := by
  have hquery : '/' ∉ if url.search ≠ [] then "__" ++ underscored url.search else [] := by
    split
    · rw [List.mem_append, not_or]
      exact ⟨by decide, underscored_slash _⟩
    · exact List.not_mem_nil
  refine ⟨_, List.append_assoc _ _ _, ?_, ?_⟩
  · rw [List.mem_append, not_or]
    refine ⟨hquery, ?_⟩
    split
    · exact List.not_mem_nil
    · decide
  · by_cases hends : (endsWith url.pathname ".js" || endsWith url.pathname ".mjs") = true
    · have hlast : ∀ front ending : Text, front ++ ending = url.pathname →
      ending.getLast? = some 's' →
          (url.host ++ url.pathname).getLast? = some 's' := by
        intro front ending hfront hs
        have hne : ending ≠ [] := by
          rintro rfl
          exact absurd hs (by decide)
        rw [← hfront, ← List.append_assoc, List.getLast?_append_of_ne_nil _ hne, hs]
      rcases Bool.or_eq_true_iff.mp hends with hjs | hmjs
      · obtain ⟨front, hfront⟩ := List.isSuffixOf_iff_suffix.mp hjs
        exact .inr (hlast front ".js" hfront (by decide))
      · obtain ⟨front, hfront⟩ := List.isSuffixOf_iff_suffix.mp hmjs
        exact .inr (hlast front ".mjs" hfront (by decide))
    · rw [if_neg hends]
      exact .inl (List.mem_append_right _ (by decide))

/-- **A path is plain** exactly if its URL is. -/
theorem plainPath_pathForUrl {url : Url} : PlainPath (pathForUrl url) ↔ PlainUrl url := by
  obtain ⟨tail, hspelled, hslash, hs⟩ := spelledPath_tail url
  obtain ⟨front, last, hfront, hall, hmem⟩ := splitOn_append_last (url.host ++ url.pathname) hslash
  have hroot : ∀ text : Text,
      ("npm/" ++ text : Text).splitOn '/' = ['n', 'p', 'm'] :: text.splitOn '/' :=
    fun text => List.splitOn_append_cons_self_of_not_mem (show '/' ∉ ['n', 'p', 'm'] by decide) text
  have hlast : PlainPart (last ++ tail) := by
    apply plainPart_of_mem
    rw [List.mem_append]
    rcases hs with htail | hend
    · exact .inr htail
    · exact .inl (hmem 's' hend (by decide))
  unfold PlainPath PlainUrl
  rw [pathForUrl_spelled, hroot, splitOn_map_blur, hspelled, hall, hfront, List.dropLast_concat]
  constructor
  · intro h part hpart
    rw [← plainPart_map_blur]
    exact h _ (List.mem_cons_of_mem _ (List.mem_map_of_mem (List.mem_append_left _ hpart)))
  · intro h part hpart
    rcases List.mem_cons.mp hpart with rfl | hpart
    · unfold PlainPart
      decide
    · obtain ⟨spelled, hin, rfl⟩ := List.mem_map.mp hpart
      rw [plainPart_map_blur]
      rcases List.mem_append.mp hin with hin | hin
      · exact h spelled hin
      · rw [List.mem_singleton.mp hin]
        exact hlast

/-- A module path holds no character that normalising would change. -/
theorem tidyPath_pathForUrl (url : Url) : TidyPath (pathForUrl url) := by
  have hblur : ∀ c, keptInPath (blur c) = true := by
    intro c
    unfold blur
    split
    · assumption
    · decide
  have hsmall : ∀ n : Fin 128, keptInPath (Char.ofNat n) = true →
      isSpace (Char.ofNat n) = false ∧ Char.ofNat n ≠ '\\' := by decide +kernel
  have hkept : ∀ c, keptInPath c = true → isSpace c = false ∧ c ≠ '\\' := by
    intro c hc
    have hlt : c.toNat < 128 := by
      simp only [keptInPath, Bool.or_eq_true, decide_eq_true_eq] at hc
      rcases hc with hc | hc
      · exact lt_of_alnum (Bool.or_eq_true_iff.mpr hc.symm)
      · simp only [List.mem_cons, List.not_mem_nil, or_false] at hc
        rcases hc with rfl | rfl | rfl | rfl | rfl
        all_goals decide
    have hchar := hsmall ⟨c.toNat, hlt⟩
    rw [Char.ofNat_toNat] at hchar
    exact hchar hc
  have hroot : ∀ c ∈ ("npm/" : Text), keptInPath c = true := by decide
  rw [pathForUrl_spelled]
  intro c hc
  rcases List.mem_append.mp hc with hc | hc
  · exact hkept c (hroot c hc)
  · obtain ⟨d, -, rfl⟩ := List.mem_map.mp hc
    exact hkept _ (hblur d)

/-! ### What a run visits -/

section
variable (u : UrlApi) (config : NpmConfig) (net : CdnNetwork)

/-- The text that a run gets for a URL, from wherever it is found. -/
def moduleSource (url : Url) : Except Thrown Text :=
  match net.memo url.href with
  | some text => .ok text
  | none =>
    match (if 0 < config.cacheMaxBytes then net.durable else none).bind (· url.href) with
    | some hit => .ok hit
    | none => fetchFromCdn u config net url

/-- The imports of a module that stay on the CDN, each with its URL. -/
def moduleDeps (url : Url) : List (Text × Url) :=
  match moduleSource u config net url with
  | .error _ => []
  | .ok source =>
    match collectDeps u config url (importSpecs source) with
    | .error _ => []
    | .ok (_, deps) => deps

/-- The text that a module is kept as. -/
def moduleText (url : Url) : Text :=
  match moduleSource u config net url with
  | .error _ => []
  | .ok source => rewriteDeps (pathForUrl url) (moduleDeps u config net url) source

/-- **The URLs of a run**: those of the specifiers, and those that their modules import. -/
inductive Fetched (specifiers : List Text) : Url → Prop where
  | entry {specifier : Text} {url : Url} : specifier ∈ specifiers →
      entryUrl u config specifier = some url → Fetched specifiers url
  | imported {url : Url} {dep : Text × Url} : Fetched specifiers url →
      dep ∈ moduleDeps u config net url → Fetched specifiers dep.2

/-- **The modules of a run are sound.** -/
structure ModulesSound (specifiers : List Text) (result : NpmResolution) : Prop where
  /-- Two URLs have two paths. -/
  distinct : ∀ a b, Fetched u config net specifiers a → Fetched u config net specifiers b →
    a.href ≠ b.href → pathForUrl a ≠ pathForUrl b
  /-- Each module is kept under its path, as its own text with its imports rewritten. -/
  kept : ∀ url, Fetched u config net specifiers url → ∃ source,
    moduleSource u config net url = .ok source ∧ result.modules.lookup (pathForUrl url) =
      some (rewriteDeps (pathForUrl url) (moduleDeps u config net url) source)
  /-- From wherever a specifier is imported, it reaches its module. -/
  entries : ∀ specifier ∈ specifiers, ∀ url, entryUrl u config specifier = some url →
    result.entryPaths.lookup specifier = some (pathForUrl url) ∧
      ∀ source, PlainPath source → TidyPath source →
        resolveRelative source (relativeSpecifier source (pathForUrl url)) = .ok (pathForUrl url)
  /-- A rewritten import reaches the module of the URL that it was resolved to. -/
  imports : ∀ url, Fetched u config net specifiers url → ∀ dep ∈ moduleDeps u config net url,
    u.resolve dep.1 url = some dep.2 ∧
      resolveRelative (pathForUrl url) (relativeSpecifier (pathForUrl url) (pathForUrl dep.2)) =
        .ok (pathForUrl dep.2)

end

/-- What is assumed of the URL parser: a URL is what its serialisation parses to. -/
structure Serializes (u : UrlApi) : Prop where
  resolves : ∀ text base url, u.resolve text base = some url → u.parse url.href = some url
  params : ∀ name value url, u.parse url.href = some url →
    u.parse (u.setParam name value url).href = some (u.setParam name value url)

section
variable {u : UrlApi} {config : NpmConfig} {net : CdnNetwork}

/-! ### One module -/

/-- What loading a module gives, and what it leaves alone. -/
theorem loadModule_spec (url : Url) (st : NpmState) :
    (loadModule u config net url st).1 = moduleSource u config net url ∧
      (loadModule u config net url st).2.modules = st.modules := by
  unfold loadModule moduleSource
  cases net.memo url.href with
  | some text => exact ⟨rfl, rfl⟩
  | none =>
    dsimp only
    cases (if 0 < config.cacheMaxBytes then net.durable else none).bind (· url.href) with
    | some hit => exact ⟨rfl, rfl⟩
    | none =>
      dsimp only
      cases fetchFromCdn u config net url with
      | error e => exact ⟨rfl, rfl⟩
      | ok text => exact ⟨rfl, rfl⟩

theorem collectDeps_resolved {url : Url} {specs warnings : List Text} {deps : List (Text × Url)}
    (h : collectDeps u config url specs = .ok (warnings, deps)) :
    ∀ dep ∈ deps, u.resolve dep.1 url = some dep.2 := by
  induction specs generalizing warnings deps with
  | nil =>
    obtain ⟨-, rfl⟩ := Prod.mk.inj (Except.ok.inj h)
    exact fun dep hdep => absurd hdep List.not_mem_nil
  | cons spec rest ih =>
    rw [collectDeps] at h
    split at h
    · exact ih h
    · split at h
      · exact absurd h (by simp)
      · rename_i depUrl hresolve
        split at h
        · exact absurd h (by simp)
        rename_i hrest
        split at h
        · obtain ⟨-, rfl⟩ := Prod.mk.inj (Except.ok.inj h)
          exact ih hrest
        · obtain ⟨-, rfl⟩ := Prod.mk.inj (Except.ok.inj h)
          intro dep hdep
          rcases List.mem_cons.mp hdep with rfl | hdep
          · exact hresolve
          · exact ih hrest dep hdep

theorem moduleDeps_resolved {url : Url} :
    ∀ dep ∈ moduleDeps u config net url, u.resolve dep.1 url = some dep.2 := by
  unfold moduleDeps
  split
  · exact fun dep hdep => absurd hdep List.not_mem_nil
  · split
    · exact fun dep hdep => absurd hdep List.not_mem_nil
    · rename_i hdeps
      exact collectDeps_resolved hdeps

/-- **One round of the loop** that goes well. -/
theorem visitModule_ok {url : Url} {st st' : NpmState} {deps : List Url}
    (h : visitModule u config net url st = (.ok deps, st')) :
    deps = (moduleDeps u config net url).map Prod.snd ∧
      st'.modules = mapSet st.modules (pathForUrl url) (moduleText u config net url) ∧
      ∃ source, moduleSource u config net url = .ok source := by
  obtain ⟨hsource, hmodules⟩ := @loadModule_spec u config net url st
  unfold visitModule at h
  generalize loadModule u config net url st = loaded at h hsource hmodules
  obtain ⟨answer, st₁⟩ := loaded
  dsimp only at h hsource hmodules
  cases answer with
  | error e => exact absurd h (by simp)
  | ok source =>
    dsimp only at h
    split at h
    · exact absurd h (by simp)
    cases hdeps : collectDeps u config url (importSpecs source) with
    | error e =>
      rw [hdeps] at h
      exact absurd h (by simp)
    | ok found =>
      obtain ⟨warnings, found⟩ := found
      rw [hdeps] at h
      obtain ⟨hok, rfl⟩ := Prod.mk.inj h
      obtain rfl := Except.ok.inj hok
      have hfound : moduleDeps u config net url = found := by
        unfold moduleDeps
        rw [← hsource]
        dsimp only
        rw [hdeps]
      refine ⟨by rw [hfound], ?_, source, hsource.symm⟩
      unfold moduleText
      rw [← hsource, hfound, hmodules]

/-! ### The loop -/

/-- What a run of the loop visits: URLs that nothing had seen, each address once, all that the queue
    and their imports name. -/
structure Walk (u : UrlApi) (config : NpmConfig) (net : CdnNetwork) (queue : List Url)
    (seen : List Text) (visited : List Url) : Prop where
  fresh : ∀ url ∈ visited, url.href ∉ seen
  once : (visited.map Url.href).Nodup
  queued : ∀ url ∈ queue, url.href ∈ seen ∨ url.href ∈ visited.map Url.href
  loaded : ∀ url ∈ visited, ∃ source, moduleSource u config net url = .ok source
  imported : ∀ url ∈ visited, ∀ dep ∈ moduleDeps u config net url,
    dep.2.href ∈ seen ∨ dep.2.href ∈ visited.map Url.href
  /-- Nothing else is visited. -/
  only : ∀ P : Url → Prop, (∀ url ∈ queue, P url) →
    (∀ url, P url → ∀ dep ∈ moduleDeps u config net url, P dep.2) → ∀ url ∈ visited, P url

theorem mem_of_dropWhile {queue rest : List Url} {seen : List Text} {url : Url}
    (h : (queue.dropWhile fun url => url.href ∈ seen) = url :: rest) :
    ∀ next ∈ queue, next.href ∈ seen ∨ next ∈ url :: rest := by
  intro next hnext
  rw [← List.takeWhile_append_dropWhile (p := fun url : Url => decide (url.href ∈ seen))
    (l := queue),
    h] at hnext
  rcases List.mem_append.mp hnext with hpast | hleft
  · have hseen := List.mem_takeWhile_imp hpast
    exact .inl (by simpa using hseen)
  · exact .inr hleft

/-- **Run lemma**, by induction on the modules that may still be seen. -/
theorem npmLoop_walks {fuel : ℕ} {queue : List Url} {seen : List Text} {st st' : NpmState}
    (h : npmLoop u config net fuel queue seen st = (.ok (), st')) :
    ∃ visited, Walk u config net queue seen visited ∧ st'.modules = visited.foldl
      (fun modules url => mapSet modules (pathForUrl url) (moduleText u config net url))
      st.modules := by
  have hdone : ∀ {queue : List Url} {seen : List Text},
      (queue.dropWhile fun url => url.href ∈ seen) = [] → Walk u config net queue seen [] := by
    intro queue seen hdropped
    refine ⟨by simp, by simp, fun url hurl => ?_, by simp, by simp, by simp⟩
    rw [List.dropWhile_eq_nil_iff] at hdropped
    exact .inl (by simpa using hdropped url hurl)
  induction fuel generalizing queue seen st with
  | zero =>
    unfold npmLoop at h
    split at h
    · rename_i hdropped
      obtain ⟨-, rfl⟩ := Prod.mk.inj h
      exact ⟨[], hdone hdropped, rfl⟩
    · exact absurd h (by simp)
    · rename_i hfuel _
      exact absurd hfuel (by simp)
  | succ fuel ih =>
    unfold npmLoop at h
    split at h
    · rename_i hdropped
      obtain ⟨-, rfl⟩ := Prod.mk.inj h
      exact ⟨[], hdone hdropped, rfl⟩
    · rename_i hfuel _
      exact absurd hfuel (by simp)
    · rename_i fuel' url rest hfuel hdropped
      obtain rfl : fuel = fuel' := Nat.succ.inj hfuel
      split at h
      · exact absurd h (by simp)
      rename_i deps st₁ hvisit
      obtain ⟨rfl, hmodules, hsource⟩ := visitModule_ok hvisit
      obtain ⟨visited, hwalk, hst'⟩ := ih h
      have hurl : url.href ∉ seen := not_seen_of_dropWhile hdropped
      refine ⟨url :: visited, ?_, by rw [hst', hmodules, List.foldl_cons]⟩
      -- What the rest of the run had seen or visits, the whole run had seen or visits.
      have hlater : ∀ {address : Text}, address ∈ url.href :: seen ∨
          address ∈ visited.map Url.href → address ∈ seen ∨
            address ∈ (url :: visited).map Url.href := by
        intro address haddress
        rw [List.map_cons]
        rcases haddress with hseen | hvisited
        · rcases List.mem_cons.mp hseen with rfl | hseen
          · exact .inr List.mem_cons_self
          · exact .inl hseen
        · exact .inr (List.mem_cons_of_mem _ hvisited)
      constructor
      · intro next hnext
        rcases List.mem_cons.mp hnext with rfl | hnext
        · exact hurl
        · exact fun hseen => hwalk.fresh next hnext (List.mem_cons_of_mem _ hseen)
      · rw [List.map_cons, List.nodup_cons]
        refine ⟨fun hmem => ?_, hwalk.once⟩
        obtain ⟨next, hnext, hsame⟩ := List.mem_map.mp hmem
        exact hwalk.fresh next hnext (hsame ▸ List.mem_cons_self)
      · intro next hnext
        rcases mem_of_dropWhile hdropped next hnext with hseen | hleft
        · exact .inl hseen
        · rcases List.mem_cons.mp hleft with rfl | hrest
          · exact .inr List.mem_cons_self
          · exact hlater (hwalk.queued next (List.mem_append_left _ hrest))
      · intro next hnext
        rcases List.mem_cons.mp hnext with rfl | hnext
        · exact hsource
        · exact hwalk.loaded next hnext
      · intro next hnext dep hdep
        rcases List.mem_cons.mp hnext with rfl | hnext
        · exact hlater (hwalk.queued dep.2
            (List.mem_append_right _ (List.mem_map_of_mem hdep)))
        · exact hlater (hwalk.imported next hnext dep hdep)
      · intro P hqueue himports next hnext
        have hleft : ∀ next ∈ url :: rest, P next := by
          intro next hnext
          refine hqueue next ?_
          have hsuffix := List.dropWhile_suffix (fun url : Url => decide (url.href ∈ seen))
            (l := queue)
          rw [hdropped] at hsuffix
          exact hsuffix.subset hnext
        rcases List.mem_cons.mp hnext with rfl | hnext
        · exact hleft _ List.mem_cons_self
        · refine hwalk.only P ?_ himports next hnext
          intro queued hqueued
          rcases List.mem_append.mp hqueued with hrest | hnew
          · exact hleft queued (List.mem_cons_of_mem _ hrest)
          · obtain ⟨dep, hdep, rfl⟩ := List.mem_map.mp hnew
            exact himports url (hleft url List.mem_cons_self) dep hdep

/-! ### The map of modules -/

theorem lookup_mapSet (map : List (Text × Text)) (key value other : Text) :
    (mapSet map key value).lookup other = if other = key then some value else map.lookup other := by
  have hupdate : ∀ map : List (Text × Text),
      (map.map fun e => if e.1 = key then (key, value) else e).lookup other =
        if other = key ∧ key ∈ map.map Prod.fst then some value else map.lookup other := by
    intro map
    induction map with
    | nil => simp
    | cons e rest ih =>
      obtain ⟨k, v⟩ := e
      rw [List.map_cons, List.map_cons]
      by_cases hk : k = key
      · subst hk
        by_cases ho : other = k
        · subst ho
          simp
        · have hbeq : (other == k) = false := by simpa using ho
          simp [List.lookup_cons, hbeq, ih, ho]
      · rw [if_neg hk]
        by_cases ho : other = k
        · subst ho
          simp [hk]
        · have hbeq : (other == k) = false := by simpa using ho
          have hmem : key ∈ k :: rest.map Prod.fst ↔ key ∈ rest.map Prod.fst := by
            simp [Ne.symm hk]
          rw [List.lookup_cons, hbeq, List.lookup_cons, hbeq, ih]
          simp only [hmem]
  unfold mapSet
  split
  · rename_i hmem
    rw [hupdate]
    simp [hmem]
  · rename_i hmem
    rw [List.lookup_append]
    by_cases ho : other = key
    · subst ho
      have hnone : map.lookup other = none := by
        rw [List.lookup_eq_none_iff]
        intro e he
        rw [bne_iff_ne]
        rintro rfl
        exact hmem (List.mem_map_of_mem he)
      rw [hnone]
      simp
    · have hbeq : (other == key) = false := by simpa using ho
      simp [List.lookup_cons, hbeq, ho]

/-- **What a map is filled with**, when all that is set under a path is the same. -/
theorem lookup_foldl {α : Type} {key value : α → Text} {items : List α} {item : α}
    (hitem : item ∈ items) (hsame : ∀ other ∈ items, key other = key item →
      value other = value item)
    (map : List (Text × Text)) :
    (items.foldl (fun map item => mapSet map (key item) (value item)) map).lookup (key item) =
      some (value item) := by
  induction items using List.reverseRecOn with
  | nil => exact absurd hitem List.not_mem_nil
  | append_singleton front last ih =>
    rw [List.foldl_append, List.foldl_cons, List.foldl_nil, lookup_mapSet]
    by_cases hkey : key item = key last
    · rw [if_pos hkey, hsame last (List.mem_append_right _ (List.mem_singleton_self last))
      hkey.symm]
    · rw [if_neg hkey]
      have hfront : item ∈ front := by
        rcases List.mem_append.mp hitem with hfront | hlast
        · exact hfront
        · exact absurd (congrArg key (List.mem_singleton.mp hlast)) hkey
      exact ih hfront fun other hother => hsame other (List.mem_append_left _ hother)

/-! ### The run -/

/-- The URL of an import is what its serialisation parses to. -/
theorem Fetched.parses (hserial : Serializes u) {specifiers : List Text} {url : Url}
    (h : Fetched u config net specifiers url) : u.parse url.href = some url := by
  cases h with
  | entry _ hentry =>
    unfold entryUrl at hentry
    cases hbase : u.parse config.cdnOrigin with
    | none =>
      rw [hbase] at hentry
      exact absurd hentry (by simp)
    | some base =>
      rw [hbase] at hentry
      simp only [Option.bind_eq_bind, Option.bind_some, Option.bind_eq_some_iff, pure] at hentry
      obtain ⟨plain, hplain, heq⟩ := hentry
      obtain rfl := Option.some.inj heq
      exact hserial.params _ _ _ (hserial.resolves _ _ _ hplain)
  | imported _ hdep => exact hserial.resolves _ _ _ (moduleDeps_resolved _ hdep)

/-- The address of a URL of the run decides it. -/
theorem Fetched.unique (hserial : Serializes u) {specifiers : List Text} {a b : Url}
    (ha : Fetched u config net specifiers a) (hb : Fetched u config net specifiers b)
    (h : a.href = b.href) : a = b := by
  have hparse := ha.parses hserial
  rw [h, hb.parses hserial] at hparse
  exact (Option.some.inj hparse).symm

/-- The URLs of the specifiers, one each. -/
theorem entries_of_mapM {specifiers : List Text} {queue : List Url}
    (h : specifiers.mapM (entryUrl u config) = some queue) :
    List.Forall₂ (fun specifier url => entryUrl u config specifier = some url) specifiers
      queue := by
  induction specifiers generalizing queue with
  | nil =>
    obtain rfl : [] = queue := by simpa using h
    exact .nil
  | cons specifier rest ih =>
    rw [List.mapM_cons] at h
    simp only [Option.bind_eq_bind, Option.bind_eq_some_iff, pure] at h
    obtain ⟨url, hurl, more, hmore, heq⟩ := h
    obtain rfl := Option.some.inj heq
    exact .cons hurl (ih hmore)

/-- Each specifier is in the queue with its URL, and nothing else is. -/
theorem mem_entries {specifiers : List Text} {queue : List Url}
    (h : List.Forall₂ (fun specifier url => entryUrl u config specifier = some url) specifiers
      queue) :
    (∀ specifier ∈ specifiers, ∀ url, entryUrl u config specifier = some url →
      (specifier, url) ∈ specifiers.zip queue ∧ url ∈ queue) ∧
    ∀ url ∈ queue, ∃ specifier ∈ specifiers, entryUrl u config specifier = some url := by
  induction h with
  | nil => simp
  | @cons first target rest more hfirst hrest ih =>
    constructor
    · intro specifier hspecifier url hurl
      rw [List.zip_cons_cons]
      rcases List.mem_cons.mp hspecifier with rfl | hin
      · obtain rfl := Option.some.inj (hurl.symm.trans hfirst)
        exact ⟨List.mem_cons_self, List.mem_cons_self⟩
      · obtain ⟨hzip, hqueue⟩ := ih.1 specifier hin url hurl
        exact ⟨List.mem_cons_of_mem _ hzip, List.mem_cons_of_mem _ hqueue⟩
    · intro url hurl
      rcases List.mem_cons.mp hurl with rfl | hin
      · exact ⟨first, List.mem_cons_self, hfirst⟩
      · obtain ⟨specifier, hspecifier, hentry⟩ := ih.2 url hin
        exact ⟨specifier, List.mem_cons_of_mem _ hspecifier, hentry⟩

/-- **What a run that goes well visits** is what it fetches. -/
theorem fetched_visited (hserial : Serializes u) {specifiers : List Text} {queue visited : List Url}
    (hqueue : specifiers.mapM (entryUrl u config) = some queue)
    (hwalk : Walk u config net queue [] visited) {url : Url} :
    Fetched u config net specifiers url ↔ url ∈ visited := by
  have hentries := entries_of_mapM hqueue
  have honly : ∀ url ∈ visited, Fetched u config net specifiers url := by
    apply hwalk.only
    · intro url hurl
      obtain ⟨specifier, hspecifier, hentry⟩ := (mem_entries hentries).2 url hurl
      exact .entry hspecifier hentry
    · exact fun url hurl dep hdep => .imported hurl hdep
  have hsame : ∀ {url}, Fetched u config net specifiers url →
      url.href ∈ [] ∨ url.href ∈ visited.map Url.href → url ∈ visited := by
    intro url hurl haddress
    rcases haddress with hnone | hmem
    · exact absurd hnone List.not_mem_nil
    · obtain ⟨other, hother, heq⟩ := List.mem_map.mp hmem
      rwa [← (honly other hother).unique hserial hurl heq]
  constructor
  · intro h
    induction h with
    | @entry specifier url hspecifier hentry =>
      have hmem := ((mem_entries hentries).1 specifier hspecifier url hentry).2
      exact hsame (.entry hspecifier hentry) (hwalk.queued url hmem)
    | @imported url dep hurl hdep ih =>
      exact hsame (.imported hurl hdep) (hwalk.imported url ih dep hdep)
  · exact honly url

/-- The paths of the specifiers, as the run collects them. -/
theorem lookup_entryPaths {specifiers : List Text} {queue : List Url}
    (hentries : List.Forall₂ (fun specifier url => entryUrl u config specifier = some url)
      specifiers queue) {specifier : Text} (hspecifier : specifier ∈ specifiers) {url : Url}
    (hurl : entryUrl u config specifier = some url) :
    ((specifiers.zip queue).foldl (fun paths entry => mapSet paths entry.1 (pathForUrl entry.2))
      []).lookup specifier = some (pathForUrl url) := by
  have hzip : ∀ entry ∈ specifiers.zip queue, entryUrl u config entry.1 = some entry.2 :=
    fun entry hentry => (List.forall₂_iff_zip.mp hentries).2 hentry
  have hmem := ((mem_entries hentries).1 specifier hspecifier url hurl).1
  refine @lookup_foldl (Text × Url) Prod.fst (fun entry => pathForUrl entry.2) _ _ hmem ?_ []
  intro other hother hkey
  have hother := hzip other hother
  rw [hkey, hurl] at hother
  rw [Option.some.inj hother]

/-- The run behind a result. -/
theorem resolveNpmModules_ok {specifiers : List Text} {result : NpmResolution}
    (h : (resolveNpmModules u config net specifiers).1 = .ok result) : ∃ queue visited,
    specifiers.mapM (entryUrl u config) = some queue ∧ Walk u config net queue [] visited ∧
      result.modules = visited.foldl
        (fun modules url => mapSet modules (pathForUrl url) (moduleText u config net url)) [] ∧
      result.entryPaths = (specifiers.zip queue).foldl
        (fun paths entry => mapSet paths entry.1 (pathForUrl entry.2)) [] := by
  unfold resolveNpmModules at h
  split at h
  · exact absurd h (by simp)
  rename_i queue hqueue
  dsimp only at h
  split at h
  · exact absurd h (by simp)
  rename_i st hloop
  obtain rfl := Except.ok.inj h
  obtain ⟨visited, hwalk, hmodules⟩ := npmLoop_walks hloop
  exact ⟨queue, visited, hqueue, hwalk, hmodules, rfl⟩

/-- **The modules of a run are sound** exactly if no two of its URLs blur and all of them have plain
    paths. -/
theorem npm_modules_sound (hserial : Serializes u) {specifiers : List Text} {result : NpmResolution}
    (h : (resolveNpmModules u config net specifiers).1 = .ok result) :
    ModulesSound u config net specifiers result ↔
      (∀ a b, Fetched u config net specifiers a → Fetched u config net specifiers b →
        a.href ≠ b.href → ¬ Blurred a b) ∧
      ∀ url, Fetched u config net specifiers url → PlainUrl url := by
  obtain ⟨queue, visited, hqueue, hwalk, hmodules, hpaths⟩ := resolveNpmModules_ok h
  have hentries := entries_of_mapM hqueue
  have hvisited : ∀ {url}, Fetched u config net specifiers url ↔ url ∈ visited :=
    fetched_visited hserial hqueue hwalk
  constructor
  · intro hsound
    refine ⟨fun a b ha hb hne hblurred => ?_, fun url hurl => ?_⟩
    · exact hsound.distinct a b ha hb hne (pathForUrl_eq_iff.mpr hblurred)
    · -- By induction on what the run reaches: importers have plain paths.
      rw [← plainPath_pathForUrl]
      induction hurl with
      | @entry specifier url hspecifier hentry =>
        have hmain : PlainPath "main.js" ∧ TidyPath "main.js" := by
          constructor
          · have hsplit : ("main.js" : Text).splitOn '/' = [("main.js" : Text)] := by decide
            intro part hpart
            rw [hsplit, List.mem_singleton] at hpart
            subst hpart
            exact plainPart_of_mem (by decide)
          · show ∀ c ∈ ("main.js" : Text), isSpace c = false ∧ c ≠ '\\'
            decide
        have hreaches := (hsound.entries specifier hspecifier url hentry).2 _ hmain.1 hmain.2
        exact (resolveRelative_relativeSpecifier hmain.1 hmain.2 (tidyPath_pathForUrl url)).mp
          hreaches
      | @imported url dep hurl hdep ih =>
        have hreaches := (hsound.imports url hurl dep hdep).2
        exact (resolveRelative_relativeSpecifier ih (tidyPath_pathForUrl url)
          (tidyPath_pathForUrl dep.2)).mp hreaches
  · rintro ⟨hapart, hplain⟩
    constructor
    · exact fun a b ha hb hne hpath => hapart a b ha hb hne (pathForUrl_eq_iff.mp hpath)
    · intro url hurl
      obtain ⟨source, hsource⟩ := hwalk.loaded url (hvisited.mp hurl)
      refine ⟨source, hsource, ?_⟩
      have htext : moduleText u config net url =
          rewriteDeps (pathForUrl url) (moduleDeps u config net url) source := by
        unfold moduleText
        rw [hsource]
      rw [hmodules, ← htext]
      refine lookup_foldl (hvisited.mp hurl) (fun other hother hpath => ?_) []
      -- Another URL under this path would blur with it.
      by_cases haddress : other.href = url.href
      · rw [(hvisited.mpr hother).unique hserial hurl haddress]
      · exact absurd (pathForUrl_eq_iff.mp hpath)
          (hapart other url (hvisited.mpr hother) hurl haddress)
    · intro specifier hspecifier url hentry
      refine ⟨?_, fun source hsource htidy => ?_⟩
      · rw [hpaths]
        exact lookup_entryPaths hentries hspecifier hentry
      · rw [resolveRelative_relativeSpecifier hsource htidy (tidyPath_pathForUrl url),
          plainPath_pathForUrl]
        exact hplain url (.entry hspecifier hentry)
    · intro url hurl dep hdep
      refine ⟨moduleDeps_resolved dep hdep, ?_⟩
      rw [resolveRelative_relativeSpecifier (plainPath_pathForUrl.mpr (hplain url hurl))
        (tidyPath_pathForUrl url) (tidyPath_pathForUrl dep.2), plainPath_pathForUrl]
      exact hplain dep.2 (.imported hurl hdep)

end

/-! ### A path that two URLs share -/

def aUrl : Url := { cdnUrl with href := "https://esm.sh/a", pathname := "/a" }

def aTargetUrl : Url :=
  { aUrl with href := "https://esm.sh/a?target=es2022", search := "?target=es2022" }

def bUrl : Url := { cdnUrl with href := "https://esm.sh/b", pathname := "/b" }

def bJsUrl : Url := { cdnUrl with href := "https://esm.sh/b.js", pathname := "/b.js" }

def graphTable : List (Text × Url) :=
  [("https://esm.sh", cdnUrl), (cdnUrl.href, cdnUrl), ("/a", aUrl), (aUrl.href, aUrl),
    (aTargetUrl.href, aTargetUrl), ("/b", bUrl), (bUrl.href, bUrl), ("/b.js", bJsUrl),
    (bJsUrl.href, bJsUrl)]

/-- The URLs of the examples; the one that gets a target is that of the specifier. -/
def graphUrls : UrlApi where
  toUrlParser := absoluteParser graphTable
  setParam := fun _ _ url => if url = aUrl then aTargetUrl else url

theorem graphUrls_serializes : Serializes graphUrls := by
  have htable : ∀ row ∈ graphTable, (tableParser graphTable).parse row.2.href = some row.2 := by
    decide +kernel
  constructor
  · exact fun text _ url hresolve => tableParser_reparses htable text url hresolve
  · intro _ _ url hparse
    have hset : ∀ chosen : Url, graphUrls.parse chosen.href = some chosen →
        graphUrls.parse (if chosen = aUrl then aTargetUrl else chosen).href =
          some (if chosen = aUrl then aTargetUrl else chosen) := by
      intro chosen hchosen
      split
      · decide +kernel
      · exact hchosen
    exact hset url hparse

/-- A CDN whose modules have these texts. -/
def graphNetwork (sources : List (Text × Text)) : CdnNetwork where
  memo := fun _ => none
  durable := none
  answer := fun href => ⟨[], .ok (200, (sources.lookup href).getD [])⟩

/-- The module of the specifier imports another, with and without its extension. -/
def bothNetwork : CdnNetwork :=
  graphNetwork [(aTargetUrl.href, "import x from '/b';import y from '/b.js'"),
    (bUrl.href, "export default 1"), (bJsUrl.href, "export default 2")]

/-- The module of the specifier imports one other. -/
def oneNetwork : CdnNetwork :=
  graphNetwork [(aTargetUrl.href, "import x from '/b'"), (bUrl.href, "export default 1")]

/-- What a run on it gives. -/
def oneResolution : NpmResolution where
  modules := [("npm/esm.sh/a___target_es2022.js", "import x from './b.js'"),
    ("npm/esm.sh/b.js", "export default 1")]
  entryPaths := [("a", "npm/esm.sh/a___target_es2022.js")]
  warnings := ["npm imports (a) were resolved through esm.sh: 0 module(s) from cache, 2 downloaded."]
  cached := 0
  fetched := 2
  stored := none

/-- A run whose modules are sound. -/
theorem oneNetwork_sound : ModulesSound graphUrls esmSh oneNetwork ["a"] oneResolution := by
  have hentry : entryUrl graphUrls esmSh "a" = some aTargetUrl := by decide +kernel
  have hdeps : moduleDeps graphUrls esmSh oneNetwork aTargetUrl =
    [(("/b" : Text), bUrl)] := by decide +kernel
  have hnone : moduleDeps graphUrls esmSh oneNetwork bUrl = [] := by decide +kernel
  have hall : ∀ url, Fetched graphUrls esmSh oneNetwork ["a"] url → url = aTargetUrl ∨
    url = bUrl := by
    intro url hurl
    induction hurl with
    | entry hspecifier hurl =>
      rw [List.mem_singleton.mp hspecifier, hentry] at hurl
      exact .inl (Option.some.inj hurl).symm
    | imported _ hdep ih =>
      rcases ih with rfl | rfl
      · rw [hdeps, List.mem_singleton] at hdep
        exact .inr (congrArg Prod.snd hdep)
      · rw [hnone] at hdep
        exact absurd hdep List.not_mem_nil
  refine (npm_modules_sound graphUrls_serializes (by decide +kernel)).mpr ⟨?_, ?_⟩
  · intro a b ha hb hne
    rw [← pathForUrl_eq_iff]
    rcases hall a ha with rfl | rfl
    · rcases hall b hb with rfl | rfl
      · exact absurd rfl hne
      · decide +kernel
    · rcases hall b hb with rfl | rfl
      · decide +kernel
      · exact absurd rfl hne
  · intro url hurl
    unfold PlainUrl PlainPart
    rcases hall url hurl with rfl | rfl
    · decide +kernel
    · decide +kernel

/-- What is left of its modules. -/
def bothModules : List (Text × Text) :=
  [("npm/esm.sh/a___target_es2022.js", "import x from './b.js';import y from './b.js'"),
    ("npm/esm.sh/b.js", "export default 2")]

/-- **An extension**: two modules of a run share a path, so the first is lost and its import reaches
    the second. -/
theorem extension_collides : ∃ result,
    (resolveNpmModules graphUrls esmSh bothNetwork ["a"]).1 = .ok result ∧
      Fetched graphUrls esmSh bothNetwork ["a"] bUrl ∧
      Fetched graphUrls esmSh bothNetwork ["a"] bJsUrl ∧ bUrl.href ≠ bJsUrl.href ∧
      result.modules = bothModules ∧
      ¬ ModulesSound graphUrls esmSh bothNetwork ["a"] result := by
  have hfetched : Fetched graphUrls esmSh bothNetwork ["a"] aTargetUrl :=
    .entry List.mem_cons_self (by decide +kernel)
  have hb : Fetched graphUrls esmSh bothNetwork ["a"] bUrl :=
    @Fetched.imported _ _ _ _ aTargetUrl ("/b", bUrl) hfetched (by decide +kernel)
  have hbJs : Fetched graphUrls esmSh bothNetwork ["a"] bJsUrl :=
    @Fetched.imported _ _ _ _ aTargetUrl ("/b.js", bJsUrl) hfetched (by decide +kernel)
  have hmodules : ((resolveNpmModules graphUrls esmSh bothNetwork ["a"]).1.toOption.map
      NpmResolution.modules) = some bothModules := by
    decide +kernel
  cases hrun : (resolveNpmModules graphUrls esmSh bothNetwork ["a"]).1 with
  | error e =>
    rw [hrun] at hmodules
    exact absurd hmodules (by simp [Except.toOption])
  | ok result =>
    rw [hrun] at hmodules
    refine ⟨result, rfl, hb, hbJs, by decide, by simpa [Except.toOption] using hmodules, ?_⟩
    intro hsound
    exact hsound.distinct bUrl bJsUrl hb hbJs (by decide) (by decide +kernel)

end KodyCelld.Execute
