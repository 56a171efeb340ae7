import KodyCelld.Lib.Js
import Mathlib.Data.List.DropRight

namespace KodyCelld.Lib

/-!
# References to a site

How the WHATWG URL parser reads a reference against the address of an http site, up to the question
whose site it names:

* `cleaned` — the text the parser looks at;
* `Site.resolve` — the origin of the URL a reference denotes;
* `Site.resolve_path` / `Site.resolve_authority` — a reference that starts with a slash stays on the
  site, unless a second slash follows it.
-/

/-- A C0 control or a space. -/
def isControlOrSpace (c : Char) : Bool := decide (c ≤ ' ')

def isTabOrNewline (c : Char) : Bool := decide (c ∈ ['\t', '\n', '\r'])

/-- A slash of a special URL. -/
def isSlash (c : Char) : Bool := decide (c ∈ ['/', '\\'])

/-- The end of a text as the parser looks at it: no controls or spaces at its very end, and no tab
    or line break anywhere. -/
def cleanedEnd (text : Text) : Text :=
  (text.rdropWhile isControlOrSpace).filter (!isTabOrNewline ·)

/-- The text the parser looks at. -/
def cleaned (text : Text) : Text := cleanedEnd (text.dropWhile isControlOrSpace)

def isSchemeChar (c : Char) : Bool := isLetter c || isDigit c || decide (c ∈ ['+', '-', '.'])

/-- A letter, more characters of a scheme, and a colon. -/
def hasScheme (text : Text) : Bool :=
  match text with
  | [] => false
  | c :: _ => isLetter c && (text.dropWhile isSchemeChar).head? == some ':'

/-- An http site, as the parser's base URL. -/
structure Site where
  origin : Text
  /-- The origin of a URL of the site's scheme, read from behind the slashes before its authority;
      `none` where the parser fails. -/
  authority : Text → Option Text
  /-- The origin of a reference with a scheme of its own. -/
  absolute : Text → Option Text

/-- **The origin of the URL a reference denotes.**  Two slashes, in either spelling, open an
    authority; whatever else has no scheme is a path, a query or a fragment of the site. -/
def Site.resolve (site : Site) (reference : Text) : Option Text :=
  let text := cleaned reference
  if hasScheme text then site.absolute text
  else match text with
    | a :: b :: rest =>
      if isSlash a && isSlash b then site.authority ((b :: rest).dropWhile isSlash)
      else some site.origin
    | _ => some site.origin

/-! ### References that start with a slash -/

/-- What is left of a text whose end is dropped, from its front. -/
theorem rdropWhile_cons {p : Char → Bool} (c : Char) (text : Text) :
    (c :: text).rdropWhile p =
      if p c = true ∧ ∀ d ∈ text, p d = true then [] else c :: text.rdropWhile p := by
  induction text using List.reverseRecOn with
  | nil => simp [List.rdropWhile_singleton]
  | append_singleton text d ih =>
    rw [← List.cons_append, List.rdropWhile_concat, List.rdropWhile_concat]
    by_cases hd : p d = true
    · rw [if_pos hd, if_pos hd, ih]
      congr 1
      simp [List.mem_append, hd, or_imp, forall_and]
    · rw [if_neg hd, if_neg hd, if_neg, List.cons_append]
      rintro ⟨-, hall⟩
      exact hd (hall d (List.mem_append_right _ List.mem_cons_self))

theorem rdropWhile_cons_of_neg {p : Char → Bool} {c : Char} (hc : p c = false) (text : Text) :
    (c :: text).rdropWhile p = c :: text.rdropWhile p := by
  rw [rdropWhile_cons, if_neg]
  rintro ⟨htrue, -⟩
  exact absurd (hc.symm.trans htrue) (by decide)

/-- A character that is kept keeps what stands before it. -/
theorem rdropWhile_append_cons {p : Char → Bool} {c : Char} (hc : p c = false) (a b : Text) :
    (a ++ c :: b).rdropWhile p = a ++ c :: b.rdropWhile p := by
  induction a with
  | nil => exact rdropWhile_cons_of_neg hc b
  | cons d a ih =>
    rw [List.cons_append, rdropWhile_cons, if_neg, ih, List.cons_append]
    rintro ⟨-, hall⟩
    have htrue := hall c (List.mem_append_right _ List.mem_cons_self)
    exact absurd (hc.symm.trans htrue) (by decide)

theorem cleaned_slash (text : Text) : cleaned ('/' :: text) = '/' :: cleanedEnd text := by
  unfold cleaned cleanedEnd
  rw [List.dropWhile_cons_of_neg (by decide), rdropWhile_cons_of_neg (by decide)]
  rfl

variable {site : Site} {text : Text}

/-- A slash that no slash follows starts a path of the site. -/
theorem Site.resolve_path (h : ∀ c, (cleanedEnd text).head? = some c → isSlash c = false) :
    site.resolve ('/' :: text) = some site.origin := by
  have hscheme : hasScheme ('/' :: cleanedEnd text) = false := rfl
  unfold Site.resolve
  rw [cleaned_slash]
  simp only [hscheme, Bool.false_eq_true, if_false]
  cases hrest : cleanedEnd text with
  | nil => rfl
  | cons c more =>
    have hc := h c (by rw [hrest]; rfl)
    simp [hc]

/-- Two slashes open an authority. -/
theorem Site.resolve_authority {c : Char} {more : Text} (h : cleanedEnd text = c :: more)
    (hc : isSlash c = true) :
    site.resolve ('/' :: text) = site.authority ((c :: more).dropWhile isSlash) := by
  have hscheme : hasScheme ('/' :: c :: more) = false := rfl
  have hslash : isSlash '/' = true := by decide
  unfold Site.resolve
  rw [cleaned_slash, h]
  simp only [hscheme, Bool.false_eq_true, if_false, hslash, hc, Bool.and_self, if_true]

/-- Controls and spaces that a text ends in are not looked at. -/
theorem cleanedEnd_rdropWhile {p : Char → Bool} (hp : ∀ c, p c = true → isControlOrSpace c = true)
    (text : Text) : cleanedEnd (text.rdropWhile p) = cleanedEnd text := by
  unfold cleanedEnd
  congr 1
  induction text using List.reverseRecOn with
  | nil => rfl
  | append_singleton text d ih =>
    rw [List.rdropWhile_concat p]
    split
    · rename_i hd
      rw [ih, List.rdropWhile_concat_pos _ _ _ (hp d hd)]
    · rfl

theorem isControlOrSpace_of_tab {c : Char} (hc : isTabOrNewline c = true) :
    isControlOrSpace c = true := by
  simp only [isTabOrNewline, List.mem_cons, List.not_mem_nil, or_false, decide_eq_true_eq] at hc
  rcases hc with rfl | rfl | rfl <;> decide

/-- A tab or a line break before other text is not looked at. -/
theorem cleanedEnd_cons_tab {c : Char} (hc : isTabOrNewline c = true) (text : Text) :
    cleanedEnd (c :: text) = cleanedEnd text := by
  unfold cleanedEnd
  rw [rdropWhile_cons]
  split
  · rename_i hall
    rw [List.rdropWhile_eq_nil_iff.mpr hall.2]
  · rw [List.filter_cons_of_neg (by simp [hc])]

theorem cleanedEnd_cons {c : Char} (hc : isControlOrSpace c = false) (text : Text) :
    cleanedEnd (c :: text) = c :: cleanedEnd text := by
  have htab : isTabOrNewline c = false := by
    by_contra h
    rw [Bool.not_eq_false] at h
    exact absurd (hc.symm.trans (isControlOrSpace_of_tab h)) (by decide)
  unfold cleanedEnd
  rw [rdropWhile_cons_of_neg hc, List.filter_cons_of_pos (by simp [htab])]

/-- **The first character that is looked at**, if it is no control, stands in the text behind tabs
    and line breaks only. -/
theorem cleanedEnd_eq_cons {c : Char} {more : Text} (hc : isControlOrSpace c = false)
    (h : cleanedEnd text = c :: more) :
    ∃ before rest, text = before ++ c :: rest ∧ (∀ d ∈ before, isTabOrNewline d = true) ∧
      cleanedEnd rest = more := by
  induction text with
  | nil => exact absurd h (by simp [cleanedEnd])
  | cons d text ih =>
    cases htab : isTabOrNewline d with
    | true =>
      rw [cleanedEnd_cons_tab htab] at h
      obtain ⟨before, rest, rfl, hbefore, hrest⟩ := ih h
      refine ⟨d :: before, rest, rfl, fun e he => ?_, hrest⟩
      rcases List.mem_cons.mp he with rfl | he
      · exact htab
      · exact hbefore e he
    | false =>
      unfold cleanedEnd at h
      rw [rdropWhile_cons] at h
      split at h
      · exact absurd h (by simp)
      rw [List.filter_cons_of_pos (by simp [htab])] at h
      obtain ⟨rfl, htail⟩ := List.cons.inj h
      exact ⟨[], text, rfl, fun e he => absurd he List.not_mem_nil, htail⟩

/-- Tabs and line breaks before a character that is no control. -/
theorem cleanedEnd_append_cons {c : Char} (hc : isControlOrSpace c = false) {before : Text}
    (hbefore : ∀ d ∈ before, isTabOrNewline d = true) (rest : Text) :
    cleanedEnd (before ++ c :: rest) = c :: cleanedEnd rest := by
  induction before with
  | nil => exact cleanedEnd_cons hc rest
  | cons d before ih =>
    rw [List.cons_append, cleanedEnd_cons_tab (hbefore d List.mem_cons_self)]
    exact ih fun e he => hbefore e (List.mem_cons_of_mem _ he)

end KodyCelld.Lib
