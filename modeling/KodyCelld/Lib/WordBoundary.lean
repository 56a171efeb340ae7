import KodyCelld.Lib.Texts

namespace KodyCelld.Lib

/-!
# Words at a boundary

Regular expressions with `\b` and the flag `i`: a word that a text starts with, and the start of a
word anywhere in a text.

* `startsWithWord`, `hasWordStart` — the tests;
* `startsWithWord_append` — only the word and what follows it count;
* `hasWordStart_iff`, `hasWordStart_trim` — where the start of a word stands, and what may be
  around.
-/

/-- `\w` -/
def isWordChar (c : Char) : Bool := isDigit c || isLetter c || c == '_'

/-- `/^word\b/i` -/
def startsWithWord (word text : Text) : Bool :=
  word.isPrefixOf (lower text) && !((text.drop word.length).head?.any isWordChar)

/-- `/\b(?:start|…)/i` from a place on, with whether a word character stands before it; each start
    begins with a word character. -/
def hasWordStartFrom (starts : List Text) : (inWord : Bool) → Text → Bool
  | _, [] => false
  | inWord, c :: rest =>
    !inWord && starts.any (fun start => start.isPrefixOf (lower (c :: rest))) ||
      hasWordStartFrom starts (isWordChar c) rest

/-- `/\b(?:start|…)/i` -/
def hasWordStart (starts : List Text) (text : Text) : Bool := hasWordStartFrom starts false text

/-- The start of a word stands between two texts. -/
def WordStart (starts : List Text) (before after : Text) : Prop :=
  before.getLast?.any isWordChar = false ∧ ∃ start ∈ starts, start <+: lower after

/-- A space is no word character. -/
theorem isWordChar_of_isSpace {c : Char} (h : isSpace c = true) : isWordChar c = false := by
  by_cases hsmall : c.toNat < 128
  · have hascii : ∀ n ∈ List.range 128, isSpace (Char.ofNat n) = true →
        isWordChar (Char.ofNat n) = false := by decide +kernel
    have hc := hascii c.toNat (List.mem_range.mpr hsmall)
    rw [Char.ofNat_toNat] at hc
    exact hc h
  · -- the word characters are of ASCII
    have hfar : ∀ d : Char, d.toNat < 128 → c ≠ d := by
      rintro d hd rfl
      exact hsmall hd
    have hunderscore : c ≠ '_' := hfar '_' (by decide)
    have hdigit : isDigit c = false := by
      rw [← Bool.not_eq_true]
      intro hc
      simp only [isDigit, Bool.and_eq_true, decide_eq_true_eq] at hc
      exact hsmall (lt_of_le_of_lt hc.2 (by decide))
    have hletter : isLetter c = false := by
      rw [← Bool.not_eq_true]
      intro hc
      simp only [isLetter, Bool.or_eq_true, Bool.and_eq_true, decide_eq_true_eq] at hc
      rcases hc with hc | hc
      · exact hsmall (lt_of_le_of_lt hc.2 (by decide))
      · exact hsmall (lt_of_le_of_lt hc.2 (by decide))
    simp [isWordChar, hdigit, hletter, hunderscore]

/-- Folding case keeps word characters. -/
theorem isWordChar_toLower (c : Char) : isWordChar c.toLower = isWordChar c := by
  have hletters : ∀ n ∈ List.range 91, 65 ≤ n →
      isWordChar (Char.ofNat n).toLower = isWordChar (Char.ofNat n) := by decide +kernel
  rcases toLower_cases c with hsame | ⟨n, hlow, hhigh, rfl⟩
  · rw [hsame]
  · exact hletters n (List.mem_range.mpr hhigh) hlow

/-- **A word ends where the word characters end**: what follows does not help a text to start with
    it. -/
theorem prefix_lower_append {word text behind : Text} (hword : ∀ c ∈ word, isWordChar c = true)
    (hbehind : behind.head?.any isWordChar = false) :
    word <+: lower (text ++ behind) ↔ word <+: lower text := by
  induction text generalizing word with
  | nil =>
    cases word with
    | nil => simp
    | cons c word =>
      constructor
      · intro h
        cases behind with
        | nil => exact h
        | cons d behind =>
          have hhead : c = d.toLower := (List.cons_prefix_cons.mp h).1
          have hc := hword c List.mem_cons_self
          rw [hhead, isWordChar_toLower] at hc
          simp [hc] at hbehind
      · intro h
        exact absurd (List.prefix_nil.mp h) nofun
  | cons d text ih =>
    cases word with
    | nil => simp
    | cons c word =>
      show c :: word <+: d.toLower :: lower (text ++ behind) ↔ c :: word <+: d.toLower :: lower text
      rw [List.cons_prefix_cons, List.cons_prefix_cons,
        ih fun e he => hword e (List.mem_cons_of_mem _ he)]

/-- **Starting with a word** is decided before the first character that belongs to no word. -/
theorem startsWithWord_append {word text behind : Text} (hword : ∀ c ∈ word, isWordChar c = true)
    (hbehind : behind.head?.any isWordChar = false) :
    startsWithWord word (text ++ behind) = startsWithWord word text := by
  unfold startsWithWord
  rw [Bool.eq_iff_iff, Bool.and_eq_true, Bool.and_eq_true, List.isPrefixOf_iff_prefix,
    List.isPrefixOf_iff_prefix, prefix_lower_append hword hbehind]
  refine and_congr_right fun hprefix => ?_
  have hlength : word.length ≤ text.length := by
    have := hprefix.length_le
    simpa [lower] using this
  rw [List.drop_append_of_le_length hlength]
  cases hrest : text.drop word.length with
  | nil => simp [hbehind]
  | cons d rest => simp

theorem hasWordStartFrom_iff {starts : List Text} {inWord : Bool} {text : Text}
    (hstarts : ∀ start ∈ starts, start ≠ []) : hasWordStartFrom starts inWord text = true ↔
      ∃ before after, text = before ++ after ∧
        (before = [] → inWord = false) ∧ WordStart starts before after := by
  induction text generalizing inWord with
  | nil =>
    constructor
    · intro h
      simp [hasWordStartFrom] at h
    · rintro ⟨before, after, htext, -, -, start, hstart, hprefix⟩
      obtain ⟨-, rfl⟩ := List.append_eq_nil_iff.mp htext.symm
      exact absurd (List.prefix_nil.mp hprefix) (hstarts start hstart)
  | cons c rest ih =>
    rw [hasWordStartFrom, Bool.or_eq_true, Bool.and_eq_true, Bool.not_eq_true',
      List.any_eq_true, ih]
    constructor
    · rintro (⟨hword, start, hstart, hprefix⟩ | ⟨before, after, rfl, hfirst, hlast, hmention⟩)
      · exact ⟨[], c :: rest, rfl, fun _ => hword, rfl, start, hstart,
          List.isPrefixOf_iff_prefix.mp hprefix⟩
      · refine ⟨c :: before, after, rfl, fun h => absurd h nofun, ?_, hmention⟩
        cases before with
        | nil => simpa using hfirst rfl
        | cons d before => simpa using hlast
    · rintro ⟨before, after, htext, hfirst, hlast, start, hstart, hprefix⟩
      cases before with
      | nil =>
        obtain rfl : c :: rest = after := htext
        exact .inl ⟨hfirst rfl, start, hstart, List.isPrefixOf_iff_prefix.mpr hprefix⟩
      | cons d before =>
        obtain ⟨rfl, rfl⟩ := List.cons.inj htext
        refine .inr ⟨before, after, rfl, ?_, ?_, start, hstart, hprefix⟩
        · rintro rfl
          simpa using hlast
        · cases before with
          | nil => rfl
          | cons e before => simpa using hlast

/-- **Where the start of a word stands.** -/
theorem hasWordStart_iff {starts : List Text} {text : Text}
    (hstarts : ∀ start ∈ starts, start ≠ []) : hasWordStart starts text = true ↔
      ∃ before after, text = before ++ after ∧ WordStart starts before after := by
  unfold hasWordStart
  rw [hasWordStartFrom_iff hstarts]
  simp

section
variable {starts : List Text}
  (hstarts : ∀ start ∈ starts, start ≠ [] ∧ ∀ c ∈ start, isWordChar c = true)
include hstarts

/-- No word starts at a character that belongs to none. -/
theorem not_starts_of_space {c : Char} (hc : isWordChar c = false) (rest : Text) :
    starts.any (fun start => start.isPrefixOf (lower (c :: rest))) = false := by
  rw [List.any_eq_false]
  intro start hstart hprefix
  obtain ⟨d, more, rfl⟩ := List.exists_cons_of_ne_nil (hstarts start hstart).1
  have hhead : d = c.toLower :=
    (List.cons_prefix_cons.mp (List.isPrefixOf_iff_prefix.mp hprefix)).1
  have hd := (hstarts _ hstart).2 d List.mem_cons_self
  rw [hhead, isWordChar_toLower, hc] at hd
  exact absurd hd Bool.false_ne_true

theorem hasWordStartFrom_front {front : Text} (hfront : ∀ c ∈ front, isWordChar c = false)
    (text : Text) :
    hasWordStartFrom starts false (front ++ text) = hasWordStartFrom starts false text := by
  induction front with
  | nil => rfl
  | cons c front ih =>
    have hc := hfront c List.mem_cons_self
    rw [List.cons_append, hasWordStartFrom, not_starts_of_space hstarts hc, hc,
      ih fun d hd => hfront d (List.mem_cons_of_mem _ hd)]
    simp

theorem hasWordStartFrom_back {back : Text} (hback : ∀ c ∈ back, isWordChar c = false)
    (inWord : Bool) (text : Text) :
    hasWordStartFrom starts inWord (text ++ back) = hasWordStartFrom starts inWord text := by
  induction text generalizing inWord with
  | nil =>
    show hasWordStartFrom starts inWord back = false
    cases back with
    | nil => rfl
    | cons c back =>
      have hc := hback c List.mem_cons_self
      have hrest := hasWordStartFrom_front hstarts
        (fun d hd => hback d (List.mem_cons_of_mem _ hd)) []
      rw [List.append_nil] at hrest
      rw [hasWordStartFrom, not_starts_of_space hstarts hc, hc, hrest]
      simp [hasWordStartFrom]
  | cons c text ih =>
    have hhead : back.head?.any isWordChar = false := by
      cases back with
      | nil => rfl
      | cons d back => simpa using hback d List.mem_cons_self
    have hany : starts.any (fun start => start.isPrefixOf (lower (c :: text ++ back))) =
        starts.any fun start => start.isPrefixOf (lower (c :: text)) := by
      rw [Bool.eq_iff_iff, List.any_eq_true, List.any_eq_true]
      refine exists_congr fun start => and_congr_right fun hstart => ?_
      rw [List.isPrefixOf_iff_prefix, List.isPrefixOf_iff_prefix,
        prefix_lower_append (hstarts start hstart).2 hhead]
    rw [List.cons_append, hasWordStartFrom, hasWordStartFrom, ih]
    rw [List.cons_append] at hany
    rw [hany]

/-- **What is trimmed** has no word. -/
theorem hasWordStart_trim (text : Text) :
    hasWordStart starts (trim text) = hasWordStart starts text := by
  obtain ⟨before, after, htext, hbefore, hafter⟩ := trim_split text
  have hword : ∀ spaces : Text, spaces.all isSpace = true → ∀ c ∈ spaces, isWordChar c = false :=
    fun spaces hspaces c hc => isWordChar_of_isSpace (List.all_eq_true.mp hspaces c hc)
  unfold hasWordStart
  conv_rhs => rw [htext]
  rw [hasWordStartFrom_front hstarts (hword before hbefore),
    hasWordStartFrom_back hstarts (hword after hafter)]

end

end KodyCelld.Lib
