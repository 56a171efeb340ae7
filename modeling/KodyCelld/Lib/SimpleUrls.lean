import KodyCelld.Lib.UrlPaths
import Mathlib.Data.List.TakeWhile

namespace KodyCelld.Lib

/-!
# A parser of simple URLs

`https` URLs without credentials and ports, whose host is a lower-case domain name.  A parser that can be
run, for which what is assumed of parsers can be proved.

* `simpleParse` — the parser;
* `Parts` — the components of a simple URL, and when they are in their serialised form;
* `simpleUrls_hosted` — its setters leave the host alone.
-/

/-! ### The parser -/

/-- A text without what a parser drops from it. -/
def squeezeEnd (text : Text) : Text :=
  (stripControls text).filter fun c => decide (c ∉ ['\t', '\n', '\r'])

def squeeze (text : Text) : Text := squeezeEnd (text.dropWhile (· ≤ ' '))

def isHostChar (c : Char) : Bool := isDigit c || ('a' ≤ c && c ≤ 'z') || c == '-' || c == '.'

/-- Those that the query of a web URL keeps. -/
def keptInQuery (c : Char) : Bool := isPrintable c && decide (c ∉ ['"', '#', '<', '>', '\''])

/-- A query or fragment with its mark; an empty one is left out. -/
def component (mark : Char) (keep : Char → Bool) (text : Text) : Text :=
  if text = [] then [] else mark :: percentEncode keep text

/-- The components of a simple URL. -/
structure Parts where
  host : Text
  pathname : Text
  search : Text
  hash : Text

def https : Text := "https://"

def Parts.after (p : Parts) : Text := p.pathname ++ (p.search ++ p.hash)

def Parts.url (p : Parts) : Url where
  href := https ++ (p.host ++ p.after)
  origin := https ++ p.host
  protocol := "https:"
  username := []
  password := []
  hostname := p.host
  port := []
  pathname := p.pathname
  search := p.search
  hash := p.hash

/-- The path, the query and the fragment in the text after the host. -/
def readParts (host after : Text) : Parts :=
  let front := after.takeWhile (· ≠ '#')
  let path := front.takeWhile (· ≠ '?')
  { host := host
    pathname := if path = [] then ['/'] else percentEncode keptInPath path
    search := component '?' keptInQuery ((front.dropWhile (· ≠ '?')).drop 1)
    hash := component '#' keptInFragment ((after.dropWhile (· ≠ '#')).drop 1) }

/-- What may come after a host. -/
def EndsHost (after : Text) : Prop :=
  after = [] ∨ after.head? = some '/' ∨ after.head? = some '?' ∨ after.head? = some '#'

instance (after : Text) : Decidable (EndsHost after) :=
  inferInstanceAs (Decidable (_ ∨ _ ∨ _ ∨ _))

def simpleParse (text : Text) : Option Url :=
  let text := squeeze text
  if https.isPrefixOf text then
    let rest := text.drop https.length
    let host := rest.takeWhile isHostChar
    let after := rest.dropWhile isHostChar
    if host ≠ [] ∧ EndsHost after then some (readParts host after).url else none
  else none

def simpleUrls : UrlSetters where
  parse := simpleParse
  resolve text base :=
    if text.head? = some '/' then simpleParse (base.origin ++ text) else simpleParse text
  setSearch text url :=
    Parts.url ⟨url.hostname, url.pathname, component '?' keptInQuery text, url.hash⟩
  setPathname text url :=
    let path := if text.head? = some '/' then text else '/' :: text
    Parts.url ⟨url.hostname, percentEncode keptInPath path, url.search, url.hash⟩

/-! ### Components -/

theorem keepsEscapes_query : KeepsEscapes keptInQuery := by
  unfold KeepsEscapes
  decide

theorem not_mem_of_kept {keep : Char → Bool} {c : Char} {s : Text} (hc : keep c = false)
    (h : ∀ d ∈ s, keep d = true) : c ∉ s := by
  intro hmem
  rw [h c hmem] at hc
  exact absurd hc (by decide)

/-- A component in its serialised form. -/
def NormalComponent (mark : Char) (keep : Char → Bool) (text : Text) : Prop :=
  text = [] ∨ ∃ rest, text = mark :: rest ∧ rest ≠ [] ∧ ∀ c ∈ rest, keep c = true

theorem component_normal {mark : Char} {keep : Char → Bool} (hkeep : KeepsEscapes keep) (text : Text) :
    NormalComponent mark keep (component mark keep text) := by
  unfold component
  split
  · exact .inl rfl
  · rename_i hne
    refine .inr ⟨_, rfl, ?_, percentEncode_kept hkeep⟩
    obtain ⟨c, rest, rfl⟩ := List.exists_cons_of_ne_nil hne
    unfold percentEncode
    rw [List.flatMap_cons]
    intro hnil
    obtain ⟨hfirst, -⟩ := List.append_eq_nil_iff.mp hnil
    split at hfirst
    · cases hfirst
    -- a character has a first byte
    unfold utf8Bytes at hfirst
    dsimp only at hfirst
    split_ifs at hfirst
    all_goals simp [percentByte] at hfirst

/-- The components of a simple URL in their serialised form. -/
structure Parts.Normal (p : Parts) : Prop where
  host : p.host ≠ []
  hostChars : ∀ c ∈ p.host, isHostChar c = true
  path : p.pathname.head? = some '/'
  pathChars : ∀ c ∈ p.pathname, keptInPath c = true
  search : NormalComponent '?' keptInQuery p.search
  hash : NormalComponent '#' keptInFragment p.hash

theorem takeWhile_stop {p : Char → Bool} {body rest : Text} (hbody : ∀ c ∈ body, p c = true)
    (hrest : ∀ c, rest.head? = some c → p c = false) : (body ++ rest).takeWhile p = body := by
  have hnone : rest.takeWhile p = [] := by
    cases rest with
    | nil => rfl
    | cons c rest => exact List.takeWhile_cons_of_neg (by simp [hrest c rfl])
  rw [List.takeWhile_append_of_pos hbody, hnone, List.append_nil]

theorem dropWhile_stop {p : Char → Bool} {body rest : Text} (hbody : ∀ c ∈ body, p c = true)
    (hrest : ∀ c, rest.head? = some c → p c = false) : (body ++ rest).dropWhile p = rest := by
  rw [List.dropWhile_append_of_pos hbody]
  cases rest with
  | nil => rfl
  | cons c rest => exact List.dropWhile_cons_of_neg (by simp [hrest c rfl])

/-- A component is read back from what follows its mark. -/
theorem NormalComponent.read {mark : Char} {keep : Char → Bool} {text : Text}
    (h : NormalComponent mark keep text) : component mark keep (text.drop 1) = text := by
  rcases h with rfl | ⟨rest, rfl, hne, hkept⟩
  · rfl
  · rw [List.drop_succ_cons, List.drop_zero, component, if_neg hne, percentEncode_of_kept hkept]

theorem NormalComponent.head {mark c : Char} {keep : Char → Bool} {text : Text}
    (h : NormalComponent mark keep text) (hc : text.head? = some c) : c = mark := by
  rcases h with rfl | ⟨rest, rfl, -, -⟩
  · cases hc
  · exact (Option.some.inj hc).symm

theorem NormalComponent.printable {mark : Char} {keep : Char → Bool} {text : Text}
    (h : NormalComponent mark keep text) (hmark : isPrintable mark = true)
    (hkeep : ∀ c, keep c = true → isPrintable c = true) : ∀ c ∈ text, isPrintable c = true := by
  rcases h with rfl | ⟨rest, rfl, -, hkept⟩
  · nofun
  · exact List.forall_mem_cons.mpr ⟨hmark, fun c hc => hkeep c (hkept c hc)⟩

theorem NormalComponent.not_mem {mark other : Char} {keep : Char → Bool} {text : Text}
    (h : NormalComponent mark keep text) (hmark : other ≠ mark) (hother : keep other = false) :
    other ∉ text := by
  rcases h with rfl | ⟨rest, rfl, -, hkept⟩
  · exact List.not_mem_nil
  · intro hmem
    rcases List.mem_cons.mp hmem with heq | hmem
    · exact hmark heq
    · exact not_mem_of_kept hother hkept hmem

theorem isPrintable_of_path {c : Char} (h : keptInPath c = true) : isPrintable c = true := by
  unfold keptInPath at h
  rw [Bool.and_eq_true, Bool.and_eq_true] at h
  exact h.1.1

theorem isPrintable_of_query {c : Char} (h : keptInQuery c = true) : isPrintable c = true := by
  unfold keptInQuery at h
  rw [Bool.and_eq_true] at h
  exact h.1

theorem isPrintable_of_fragment {c : Char} (h : keptInFragment c = true) : isPrintable c = true := by
  unfold keptInFragment at h
  rw [Bool.and_eq_true] at h
  exact h.1

theorem isPrintable_of_host {c : Char} (h : isHostChar c = true) : isPrintable c = true := by
  simp only [isHostChar, isDigit, Bool.or_eq_true, Bool.and_eq_true, decide_eq_true_eq,
    beq_iff_eq] at h
  simp only [isPrintable, Bool.and_eq_true, decide_eq_true_eq]
  rcases h with ((⟨hlow, hhigh⟩ | ⟨hlow, hhigh⟩) | rfl) | rfl
  · have hbounds : '!' ≤ '0' ∧ '9' ≤ '~' := by decide
    exact ⟨Char.le_trans hbounds.1 hlow, Char.le_trans hhigh hbounds.2⟩
  · have hbounds : '!' ≤ 'a' ∧ 'z' ≤ '~' := by decide
    exact ⟨Char.le_trans hbounds.1 hlow, Char.le_trans hhigh hbounds.2⟩
  · decide
  · decide

/-! ### Reading back -/

section
variable {p : Parts} {host after text : Text} {url : Url}

theorem Parts.Normal.pathname_ne (h : p.Normal) : p.pathname ≠ [] := by
  intro hnil
  have hpath := h.path
  rw [hnil] at hpath
  cases hpath

/-- The components of a URL are read from the text after its host. -/
theorem readParts_after (h : p.Normal) : readParts p.host p.after = p := by
  have hfront : ∀ c ∈ p.pathname ++ p.search, decide (c ≠ '#') = true := by
    intro c hc
    refine decide_eq_true ?_
    rintro rfl
    rcases List.mem_append.mp hc with hpath | hsearch
    · exact not_mem_of_kept (by decide) h.pathChars hpath
    · exact h.search.not_mem (by decide) (by decide) hsearch
  have hpath : ∀ c ∈ p.pathname, decide (c ≠ '?') = true := by
    intro c hc
    refine decide_eq_true ?_
    rintro rfl
    exact not_mem_of_kept (by decide) h.pathChars hc
  have hhash : ∀ c, p.hash.head? = some c → decide (c ≠ '#') = false := by
    intro c hc
    rw [h.hash.head hc]
    rfl
  have hsearch : ∀ c, p.search.head? = some c → decide (c ≠ '?') = false := by
    intro c hc
    rw [h.search.head hc]
    rfl
  have hafter : p.after = (p.pathname ++ p.search) ++ p.hash := (List.append_assoc ..).symm
  unfold readParts
  simp only [hafter, takeWhile_stop hfront hhash, dropWhile_stop hfront hhash,
    takeWhile_stop hpath hsearch, dropWhile_stop hpath hsearch, h.search.read, h.hash.read,
    if_neg h.pathname_ne, percentEncode_of_kept h.pathChars]

/-- What is read from a text is in its serialised form. -/
theorem readParts_normal (hne : host ≠ []) (hhost : ∀ c ∈ host, isHostChar c = true)
    (hafter : EndsHost after) : (readParts host after).Normal := by
  refine ⟨hne, hhost, ?_, ?_, component_normal keepsEscapes_query _,
    component_normal keepsEscapes_fragment _⟩
  · unfold readParts
    dsimp only
    split
    · rfl
    · -- a path that is there starts the text
      rename_i hpath
      refine percentEncode_head (by decide) ?_
      cases after with
      | nil => exact absurd rfl hpath
      | cons c rest =>
        rcases hafter with hnil | hslash | hquery | hhash
        · cases hnil
        · obtain rfl := Option.some.inj hslash
          rw [List.takeWhile_cons_of_pos (by decide), List.takeWhile_cons_of_pos (by decide)]
          rfl
        · obtain rfl := Option.some.inj hquery
          rw [List.takeWhile_cons_of_pos (by decide), List.takeWhile_cons_of_neg (by decide)] at hpath
          exact absurd rfl hpath
        · obtain rfl := Option.some.inj hhash
          rw [List.takeWhile_cons_of_neg (by decide)] at hpath
          exact absurd rfl hpath
  · unfold readParts
    dsimp only
    split
    · intro c hc
      rw [List.mem_singleton.mp hc]
      decide
    · exact percentEncode_kept keepsEscapes_path

/-- A text that is a simple URL once it is squeezed. -/
theorem simpleParse_eq (hne : host ≠ []) (hhost : ∀ c ∈ host, isHostChar c = true)
    (hafter : EndsHost after) (htext : squeeze text = https ++ (host ++ after)) :
    simpleParse text = some (readParts host after).url := by
  have hstop : ∀ c, after.head? = some c → isHostChar c = false := by
    intro c hc
    rcases hafter with rfl | hslash | hquery | hhash
    · cases hc
    · rw [← Option.some.inj (hslash.symm.trans hc)]
      decide
    · rw [← Option.some.inj (hquery.symm.trans hc)]
      decide
    · rw [← Option.some.inj (hhash.symm.trans hc)]
      decide
  have hstart : https.isPrefixOf (https ++ (host ++ after)) = true :=
    List.isPrefixOf_iff_prefix.mpr (List.prefix_append _ _)
  unfold simpleParse
  dsimp only
  rw [htext, if_pos hstart, List.drop_left, takeWhile_stop hhost hstop, dropWhile_stop hhost hstop,
    if_pos ⟨hne, hafter⟩]

/-- **Inversion.**  What is parsed has components in their serialised form. -/
theorem simpleParse_cases (h : simpleParse text = some url) : ∃ p : Parts, p.Normal ∧ p.url = url := by
  unfold simpleParse at h
  dsimp only at h
  split at h
  · split at h
    · rename_i hend
      refine ⟨_, readParts_normal hend.1 ?_ hend.2, Option.some.inj h⟩
      intro c hc
      exact List.mem_takeWhile_imp hc
    · cases h
  · cases h

/-! ### Squeezed texts -/

theorem lt_of_isPrintable {c : Char} (h : isPrintable c = true) : ¬ c ≤ ' ' := by
  simp only [isPrintable, Bool.and_eq_true, decide_eq_true_eq] at h
  intro hle
  exact absurd (Char.le_trans h.1 hle) (by decide)

theorem rdropWhile_append {q : Char → Bool} {front : Text} (h : front.rdropWhile q = front)
    (back : Text) : (front ++ back).rdropWhile q = front ++ back.rdropWhile q := by
  induction back using List.reverseRecOn with
  | nil => rw [List.append_nil, h, List.rdropWhile_nil, List.append_nil]
  | append_singleton back c ih =>
    rw [← List.append_assoc, List.rdropWhile_concat, List.rdropWhile_concat, ih]
    split
    · rfl
    · rw [List.append_assoc]

/-- Printable text is not touched where other text follows it, -/
theorem squeezeEnd_append {front : Text} (hfront : ∀ c ∈ front, isPrintable c = true)
    (back : Text) : squeezeEnd (front ++ back) = front ++ squeezeEnd back := by
  have hfilter : front.filter (fun c => decide (c ∉ ['\t', '\n', '\r'])) = front := by
    refine List.filter_eq_self.mpr fun c hc => decide_eq_true ?_
    have hlt := lt_of_isPrintable (hfront c hc)
    intro hmem
    refine hlt ?_
    simp only [List.mem_cons, List.not_mem_nil, or_false] at hmem
    rcases hmem with rfl | rfl | rfl
    all_goals decide
  have hself : stripControls front = front := by
    refine List.rdropWhile_eq_self_iff.mpr fun hne => ?_
    simpa using lt_of_isPrintable (hfront _ (List.getLast_mem hne))
  have hstrip : stripControls (front ++ back) = front ++ stripControls back :=
    rdropWhile_append hself back
  unfold squeezeEnd
  rw [hstrip, List.filter_append, hfilter]

/-- or where it comes first. -/
theorem squeeze_append {front : Text} (hne : front ≠ []) (hfront : ∀ c ∈ front, isPrintable c = true)
    (back : Text) : squeeze (front ++ back) = front ++ squeezeEnd back := by
  have hkeep : (front ++ back).dropWhile (· ≤ ' ') = front ++ back := by
    obtain ⟨c, rest, rfl⟩ := List.exists_cons_of_ne_nil hne
    have hc := lt_of_isPrintable (hfront c List.mem_cons_self)
    exact List.dropWhile_cons_of_neg (by simpa using hc)
  unfold squeeze
  rw [hkeep, squeezeEnd_append hfront]

theorem squeeze_of_printable (hne : text ≠ []) (h : ∀ c ∈ text, isPrintable c = true) :
    squeeze text = text := by
  have hsqueeze := squeeze_append hne h []
  rwa [List.append_nil, show squeezeEnd [] = [] from rfl, List.append_nil] at hsqueeze

theorem https_printable : ∀ c ∈ https, isPrintable c = true := by
  unfold https
  decide

theorem Parts.Normal.front_printable (h : p.Normal) :
    ∀ c ∈ https ++ p.host, isPrintable c = true := by
  intro c hc
  rcases List.mem_append.mp hc with hhttps | hhost
  · exact https_printable c hhttps
  · exact isPrintable_of_host (h.hostChars c hhost)

theorem Parts.Normal.after_printable (h : p.Normal) : ∀ c ∈ p.after, isPrintable c = true := by
  intro c hc
  rcases List.mem_append.mp hc with hpath | hc
  · exact isPrintable_of_path (h.pathChars c hpath)
  · rcases List.mem_append.mp hc with hsearch | hhash
    · exact h.search.printable (by decide) (fun _ => isPrintable_of_query) c hsearch
    · exact h.hash.printable (by decide) (fun _ => isPrintable_of_fragment) c hhash

theorem Parts.Normal.endsHost (h : p.Normal) : EndsHost p.after := by
  obtain ⟨rest, hrest⟩ := List.head?_eq_some_iff.mp h.path
  refine .inr (.inl ?_)
  unfold Parts.after
  rw [hrest]
  rfl

/-- **A simple URL is what its serialisation parses to.** -/
theorem simpleParse_href (h : p.Normal) : simpleParse p.url.href = some p.url := by
  have hprintable : ∀ c ∈ p.url.href, isPrintable c = true := by
    intro c hc
    have hc : c ∈ (https ++ p.host) ++ p.after := by rwa [List.append_assoc]
    rcases List.mem_append.mp hc with hfront | hafter
    · exact h.front_printable c hfront
    · exact h.after_printable c hafter
  have hne : p.url.href ≠ [] := List.append_ne_nil_of_left_ne_nil (by decide) _
  have hparse := simpleParse_eq h.host h.hostChars h.endsHost (squeeze_of_printable hne hprintable)
  rwa [readParts_after h] at hparse

/-- A URL that is known is one with components in their serialised form. -/
theorem known_cases (h : simpleUrls.Known url) : ∃ p : Parts, p.Normal ∧ p.url = url :=
  simpleParse_cases h

/-! ### What holds of the parser -/

/-- Slashes are dropped from the path only. -/
theorem stripSlashes_host (h : p.Normal) (path : Text) :
    stripSlashes ((https ++ p.host) ++ path) = (https ++ p.host) ++ stripSlashes path := by
  refine rdropWhile_append (List.rdropWhile_eq_self_iff.mpr fun hne => ?_) path
  rw [List.getLast_append_of_ne_nil hne h.host]
  have hlast := h.hostChars _ (List.getLast_mem h.host)
  intro hslash
  rw [of_decide_eq_true hslash] at hlast
  exact absurd hlast (by decide)

theorem Parts.withoutHash (h : p.Normal) :
    p.url.withoutHash = Parts.url { p with hash := [] } := by
  have hfront : ∀ c ∈ https ++ (p.host ++ (p.pathname ++ p.search)), decide (c ≠ '#') = true := by
    intro c hc
    refine decide_eq_true ?_
    rintro rfl
    simp only [List.mem_append] at hc
    rcases hc with hhttps | hhost | hpath | hsearch
    · exact absurd hhttps (by decide)
    · exact absurd (h.hostChars _ hhost) (by decide)
    · exact not_mem_of_kept (by decide) h.pathChars hpath
    · exact h.search.not_mem (by decide) (by decide) hsearch
  have hhash : ∀ c, p.hash.head? = some c → decide (c ≠ '#') = false := by
    intro c hc
    rw [h.hash.head hc]
    rfl
  have hhref : p.url.href = (https ++ (p.host ++ (p.pathname ++ p.search))) ++ p.hash := by
    simp only [Parts.url, Parts.after, List.append_assoc]
  unfold Url.withoutHash
  rw [hhref, takeWhile_stop hfront hhash]
  simp only [Parts.url, Parts.after, List.append_nil]

theorem Parts.Normal.withoutHash (h : p.Normal) : Parts.Normal { p with hash := [] } :=
  ⟨h.host, h.hostChars, h.path, h.pathChars, h.search, .inl rfl⟩

theorem simpleParse_reparses (h : simpleParse text = some url) : simpleParse url.href = some url := by
  obtain ⟨p, hp, rfl⟩ := simpleParse_cases h
  exact simpleParse_href hp

theorem simpleUrls_lawful : simpleUrls.Lawful where
  reparses _ _ h := simpleParse_reparses h
  resolves text base url h := by
    have h : (if text.head? = some '/' then simpleParse (base.origin ++ text)
      else simpleParse text) = some url := h
    split at h
    · exact simpleParse_reparses h
    · exact simpleParse_reparses h
  fragment text url h _ := by
    obtain ⟨p, hp, rfl⟩ := simpleParse_cases h
    rw [Parts.withoutHash hp]
    exact simpleParse_href hp.withoutHash

/-- **The setters of the parser, and what is appended to its URLs, leave the host alone.** -/
theorem simpleUrls_hosted : simpleUrls.Hosted where
  lawful := simpleUrls_lawful
  setSearch text url h _ := by
    obtain ⟨p, hp, rfl⟩ := known_cases h
    refine ⟨?_, ⟨rfl, rfl, rfl, rfl⟩, rfl⟩
    exact simpleParse_href (p := ⟨p.host, p.pathname, component '?' keptInQuery text, p.hash⟩)
      ⟨hp.host, hp.hostChars, hp.path, hp.pathChars, component_normal keepsEscapes_query _, hp.hash⟩
  noSearch _ := rfl
  setPathname text url h _ := by
    obtain ⟨p, hp, rfl⟩ := known_cases h
    refine ⟨?_, ⟨rfl, rfl, rfl, rfl⟩, rfl, rfl⟩
    refine simpleParse_href (p := ⟨p.host, _, p.search, p.hash⟩)
      ⟨hp.host, hp.hostChars, ?_, percentEncode_kept keepsEscapes_path, hp.search, hp.hash⟩
    refine percentEncode_head (by decide) ?_
    split
    · assumption
    · rfl
  below url h _ hsearch hhash rest hrest := by
    obtain ⟨p, hp, rfl⟩ := known_cases h
    have hsearch : p.search = [] := hsearch
    have hhash : p.hash = [] := hhash
    have hstrip : stripSlashes p.url.href = (https ++ p.host) ++ stripSlashes p.pathname := by
      have hhref : p.url.href = (https ++ p.host) ++ p.pathname := by
        simp only [Parts.url, Parts.after, hsearch, hhash, List.append_nil, List.append_assoc]
      rw [hhref]
      exact stripSlashes_host hp _
    have hpath : ∀ c ∈ stripSlashes p.pathname, isPrintable c = true := fun c hc =>
      isPrintable_of_path (hp.pathChars c ((List.rdropWhile_prefix _ _).subset hc))
    have hne : (https ++ p.host) ++ stripSlashes p.pathname ≠ [] :=
      List.append_ne_nil_of_left_ne_nil (List.append_ne_nil_of_left_ne_nil (by decide) _) _
    have hfront : ∀ c ∈ (https ++ p.host) ++ stripSlashes p.pathname, isPrintable c = true := by
      intro c hc
      rcases List.mem_append.mp hc with hc | hc
      · exact hp.front_printable c hc
      · exact hpath c hc
    have htext : squeeze (stripSlashes p.url.href ++ rest) =
        https ++ (p.host ++ (stripSlashes p.pathname ++ squeezeEnd rest)) := by
      rw [hstrip, squeeze_append hne hfront, List.append_assoc, List.append_assoc]
    have hends : EndsHost (stripSlashes p.pathname ++ squeezeEnd rest) := by
      cases hpathname : stripSlashes p.pathname with
      | nil =>
        rcases hrest with rfl | hslash
        · exact .inl rfl
        · obtain ⟨more, rfl⟩ := List.head?_eq_some_iff.mp hslash
          have hone : ∀ c ∈ ['/'], isPrintable c = true := by decide
          rw [← List.singleton_append, squeezeEnd_append hone]
          exact .inr (.inl rfl)
      | cons c more =>
        -- what is left of the path starts as the path does
        have hprefix : c :: more <+: p.pathname := by
          rw [← hpathname]
          exact List.rdropWhile_prefix _ _
        obtain ⟨tail, htail⟩ := hprefix
        have hhead := hp.path
        rw [← htail] at hhead
        exact .inr (.inl hhead)
    exact ⟨_, simpleParse_eq hp.host hp.hostChars hends htext, ⟨rfl, rfl, rfl, rfl⟩⟩
  scheme text url h path rest v _ hv := by
    obtain ⟨p, -, rfl⟩ := simpleParse_cases h
    obtain ⟨q, -, rfl⟩ := simpleParse_cases hv
    rfl

end

end KodyCelld.Lib
