import KodyCelld.Lib.Js
import Mathlib.Data.List.Nodup

namespace KodyCelld.Secrets.Placeholders

open KodyCelld.Lib

/-!
# Substituting placeholders (`secrets/placeholders.ts`)

The gateway puts the values of secrets into a request by one `String.replaceAll` after the other.
What it is for is a simultaneous substitution.

* `replaceAll`, `replaceSecretPlaceholders` — the code, with the `$` patterns of `replaceAll`;
* `pieces`, `substituted` — a text cut at its placeholders, and with their values in their place;
* `replaceAll_literal` — a replacement without `$` patterns, by splitting;
* `replace_exact` — a substitution whose steps find nothing but the placeholders of the text;
* `dollars_lost` — a secret that arrives changed.
-/

/-! ### The code -/

/-- `replacements`: a map from placeholders to the values of secrets, in its order. -/
structure Replacements where
  entries : List (Text × Text)
  nodup : (entries.map Prod.fst).Nodup
  placeholders : ∀ entry ∈ entries, entry.1 ≠ []

/-- `GetSubstitution` of a text that was found between two others: `$$`, `$&`, `$` with an opening
    quotation mark and `$'` have a meaning; there are no groups. -/
def getSubstitution (found before after : Text) : (replacement : Text) → Text
  | '$' :: '$' :: rest => '$' :: getSubstitution found before after rest
  | '$' :: '&' :: rest => found ++ getSubstitution found before after rest
  | '$' :: '\x60' :: rest => before ++ getSubstitution found before after rest
  | '$' :: '\x27' :: rest => after ++ getSubstitution found before after rest
  | c :: rest => c :: getSubstitution found before after rest
  | [] => []

/-- The search of `replaceAll` from a place on; `skip` characters belong to the last one found, and
    `before` is what stands before the place. -/
def replaceFrom (search replacement : Text) : (skip : ℕ) → (before : Text) → Text → Text
  | _, _, [] => []
  | skip + 1, before, c :: rest => replaceFrom search replacement skip (before ++ [c]) rest
  | 0, before, c :: rest =>
    if search.isPrefixOf (c :: rest) then
      getSubstitution search before ((c :: rest).drop search.length) replacement ++
        replaceFrom search replacement (search.length - 1) (before ++ [c]) rest
    else c :: replaceFrom search replacement 0 (before ++ [c]) rest

/-- `text.replaceAll(search, replacement)` for a text to search that is not empty. -/
def replaceAll (search replacement text : Text) : Text := replaceFrom search replacement 0 [] text

/-- `replaceSecretPlaceholders` -/
def replaceSecretPlaceholders (value : Text) (replacements : Replacements) : Text :=
  replacements.entries.foldl (fun next entry => replaceAll entry.1 entry.2 next) value

/-! ### The substitution -/

/-- A piece of a text: a character, or a placeholder with its value. -/
inductive Piece where
  | char (c : Char)
  | secret (placeholder value : Text)
  deriving DecidableEq

/-- The longest placeholder that a text starts with. -/
def longest (entries : List (Text × Text)) (text : Text) : Option (Text × Text) :=
  entries.foldl (fun best entry =>
    if entry.1.isPrefixOf text then
      match best with
      | none => some entry
      | some other => if other.1.length < entry.1.length then some entry else best
    else best) none

/-- A text cut at its placeholders, from the left, the longest where several start. -/
def pieces (entries : List (Text × Text)) : (skip : ℕ) → Text → List Piece
  | _, [] => []
  | skip + 1, _ :: rest => pieces entries skip rest
  | 0, c :: rest =>
    match longest entries (c :: rest) with
    | some (placeholder, value) =>
      .secret placeholder value :: pieces entries (placeholder.length - 1) rest
    | none => .char c :: pieces entries 0 rest

/-- A piece where some placeholders have been replaced. -/
def Piece.render (done : List Text) : Piece → Text
  | .char c => [c]
  | .secret placeholder value => if placeholder ∈ done then value else placeholder

/-- The text where some placeholders have been replaced. -/
def render (done : List Text) (ps : List Piece) : Text := ps.flatMap (Piece.render done)

/-- The text with the value of every placeholder in its place. -/
def substituted (value : Text) (replacements : Replacements) : Text :=
  (pieces replacements.entries 0 value).flatMap fun piece =>
    match piece with
    | .char c => [c]
    | .secret _ secretValue => secretValue

/-! ### Splitting -/

/-- Adds a text to the front of the first part. -/
def prependFirst (text : Text) : List Text → List Text
  | [] => [text]
  | first :: rest => (text ++ first) :: rest

/-- `text.split(mark)` for a mark that is not empty. -/
def splitFrom (mark : Text) : (skip : ℕ) → Text → List Text
  | _, [] => [[]]
  | skip + 1, _ :: rest => splitFrom mark skip rest
  | 0, c :: rest =>
    if mark.isPrefixOf (c :: rest) then [] :: splitFrom mark (mark.length - 1) rest
    else prependFirst [c] (splitFrom mark 0 rest)

/-- What stands between the places of one placeholder. -/
def gaps (done : List Text) (placeholder : Text) : List Piece → List Text
  | [] => [[]]
  | .char c :: ps => prependFirst [c] (gaps done placeholder ps)
  | .secret other value :: ps =>
    if other = placeholder then [] :: gaps done placeholder ps
    else prependFirst ((Piece.secret other value).render done) (gaps done placeholder ps)

/-- Whether a text has none of the patterns that `replaceAll` gives a meaning to. -/
def isLiteral : Text → Bool
  | '$' :: c :: rest =>
    !(c = '$' || c = '&' || c = '\x60' || c = '\x27') && isLiteral (c :: rest)
  | _ :: rest => isLiteral rest
  | [] => true

/-- No step of the substitution goes wrong: where it is the turn of a placeholder, the text has it
    exactly in the places of that placeholder, and if there are any, its value is literal. -/
def Clean (ps : List Piece) : (done : List Text) → (todo : List (Text × Text)) → Prop
  | _, [] => True
  | done, (placeholder, value) :: todo =>
    splitFrom placeholder 0 (render done ps) = gaps done placeholder ps ∧
      (Piece.secret placeholder value ∈ ps → isLiteral value = true) ∧
      Clean ps (done ++ [placeholder]) todo

instance decidableClean (ps : List Piece) : (done : List Text) → (todo : List (Text × Text)) →
    Decidable (Clean ps done todo)
  | _, [] => inferInstanceAs (Decidable True)
  | done, (placeholder, _) :: todo =>
    have := decidableClean ps (done ++ [placeholder]) todo
    inferInstanceAs (Decidable (_ ∧ _ ∧ _))

/-! ### Replacing is splitting -/

theorem intercalate_prependFirst (mark text : Text) (parts : List Text) :
    mark.intercalate (prependFirst text parts) = text ++ mark.intercalate parts := by
  cases parts with
  | nil => simp [prependFirst]
  | cons first rest =>
    cases rest with
    | nil => simp [prependFirst]
    | cons second rest => simp [prependFirst, List.intercalate_cons_cons]

theorem prependFirst_ne_nil (text : Text) (parts : List Text) : prependFirst text parts ≠ [] := by
  cases parts with
  | nil => simp [prependFirst]
  | cons first rest => simp [prependFirst]

theorem splitFrom_ne_nil (mark : Text) (skip : ℕ) (text : Text) :
    splitFrom mark skip text ≠ [] := by
  induction text generalizing skip with
  | nil => simp [splitFrom]
  | cons c rest ih =>
    cases skip with
    | succ skip => exact ih skip
    | zero =>
      rw [splitFrom]
      split
      · simp
      · exact prependFirst_ne_nil [c] _

/-- A literal text is put in as it is. -/
theorem getSubstitution_literal (found before after : Text) {replacement : Text}
    (h : isLiteral replacement = true) :
    getSubstitution found before after replacement = replacement := by
  induction replacement with
  | nil => rfl
  | cons c rest ih =>
    rw [getSubstitution.eq_def]
    -- the four patterns are not there
    split
    iterate 4
      · rename_i heq
        rw [heq] at h
        simp [isLiteral] at h
    · rename_i heq
      obtain ⟨rfl, rfl⟩ := List.cons.inj heq
      rw [ih]
      rw [isLiteral.eq_def] at h
      split at h
      · rename_i hcons
        obtain ⟨rfl, rfl⟩ := List.cons.inj hcons
        exact (Bool.and_eq_true_iff.mp h).2
      · rename_i hcons
        obtain ⟨-, rfl⟩ := List.cons.inj hcons
        exact h
      · rename_i hcons
        exact absurd hcons nofun
    · rename_i heq
      exact absurd heq nofun

/-- **A literal replacement**: the parts of the text with the value between them. -/
theorem replaceFrom_literal {mark value : Text} (h : isLiteral value = true) (skip : ℕ)
    (before text : Text) : replaceFrom mark value skip before text =
      value.intercalate (splitFrom mark skip text) := by
  induction text generalizing skip before with
  | nil => simp [replaceFrom, splitFrom]
  | cons c rest ih =>
    cases skip with
    | succ skip => exact ih skip (before ++ [c])
    | zero =>
      rw [replaceFrom, splitFrom]
      split
      · rw [getSubstitution_literal _ _ _ h, ih,
          List.intercalate_cons_of_ne_nil (splitFrom_ne_nil mark _ rest), List.nil_append]
      · rw [ih, intercalate_prependFirst]
        rfl

theorem replaceAll_literal {mark value : Text} (h : isLiteral value = true) (text : Text) :
    replaceAll mark value text = value.intercalate (splitFrom mark 0 text) :=
  replaceFrom_literal h 0 [] text

/-- A text is not changed where the search finds nothing, whatever the replacement. -/
theorem replaceFrom_single {mark value : Text} {skip : ℕ} {before text : Text}
    (h : (splitFrom mark skip text).length = 1) :
    replaceFrom mark value skip before text = text.drop skip := by
  induction text generalizing skip before with
  | nil => simp [replaceFrom]
  | cons c rest ih =>
    cases skip with
    | succ skip => exact ih h
    | zero =>
      rw [splitFrom] at h
      rw [replaceFrom]
      split
      · rename_i hfound
        rw [if_pos hfound, List.length_cons] at h
        have hparts := List.length_pos_of_ne_nil (splitFrom_ne_nil mark (mark.length - 1) rest)
        omega
      · rename_i hfound
        rw [if_neg hfound] at h
        have hparts : (splitFrom mark 0 rest).length = 1 := by
          cases hsplit : splitFrom mark 0 rest with
          | nil => exact absurd hsplit (splitFrom_ne_nil mark 0 rest)
          | cons first more =>
            rw [hsplit] at h
            simpa [prependFirst] using h
        rw [ih hparts]
        rfl

/-! ### The pieces of a text -/

/-- What the search for the longest placeholder has found so far. -/
structure IsLongest (entries : List (Text × Text)) (text : Text) (entry : Text × Text) : Prop where
  mem : entry ∈ entries
  starts : entry.1 <+: text
  longest : ∀ other ∈ entries, other.1 <+: text → other.1.length ≤ entry.1.length

/-- **The longest placeholder** is one that the text starts with, and no longer one is. -/
theorem longest_spec (entries : List (Text × Text)) (text : Text) :
    (longest entries text = none ∧ ∀ entry ∈ entries, ¬ entry.1 <+: text) ∨
      ∃ entry, longest entries text = some entry ∧ IsLongest entries text entry := by
  induction entries using List.reverseRecOn with
  | nil => exact .inl ⟨rfl, fun _ h => absurd h List.not_mem_nil⟩
  | append_singleton entries entry ih =>
    have hstep : longest (entries ++ [entry]) text =
        if entry.1.isPrefixOf text then
          match longest entries text with
          | none => some entry
          | some other =>
            if other.1.length < entry.1.length then some entry else longest entries text
        else longest entries text := by
      unfold longest
      rw [List.foldl_append]
      rfl
    have hcases : ∀ other ∈ entries ++ [entry], other ∈ entries ∨ other = entry := by simp
    by_cases hstarts : entry.1 <+: text
    · rw [if_pos (List.isPrefixOf_iff_prefix.mpr hstarts)] at hstep
      right
      rcases ih with ⟨hnone, hno⟩ | ⟨best, hbest, hspec⟩
      · rw [hnone] at hstep
        refine ⟨entry, hstep, by simp, hstarts, fun other hother hprefix => ?_⟩
        rcases hcases other hother with hold | rfl
        · exact absurd hprefix (hno other hold)
        · exact le_refl _
      · rw [hbest] at hstep
        dsimp only at hstep
        by_cases hlonger : best.1.length < entry.1.length
        · rw [if_pos hlonger] at hstep
          refine ⟨entry, hstep, by simp, hstarts, fun other hother hprefix => ?_⟩
          rcases hcases other hother with hold | rfl
          · have := hspec.longest other hold hprefix
            omega
          · exact le_refl _
        · rw [if_neg hlonger] at hstep
          refine ⟨best, hstep, List.mem_append_left _ hspec.mem, hspec.starts,
            fun other hother hprefix => ?_⟩
          rcases hcases other hother with hold | rfl
          · exact hspec.longest other hold hprefix
          · omega
    · have hnot : ¬ entry.1.isPrefixOf text = true := fun h =>
        hstarts (List.isPrefixOf_iff_prefix.mp h)
      rw [if_neg hnot] at hstep
      rcases ih with ⟨hnone, hno⟩ | ⟨best, hbest, hspec⟩
      · refine .inl ⟨hstep.trans hnone, fun other hother => ?_⟩
        rcases hcases other hother with hold | rfl
        · exact hno other hold
        · exact hstarts
      · refine .inr ⟨best, hstep.trans hbest, List.mem_append_left _ hspec.mem, hspec.starts,
          fun other hother hprefix => ?_⟩
        rcases hcases other hother with hold | rfl
        · exact hspec.longest other hold hprefix
        · exact absurd hprefix hstarts

theorem isLongest_of_longest {entries : List (Text × Text)} {text : Text} {entry : Text × Text}
    (h : longest entries text = some entry) : IsLongest entries text entry := by
  rcases longest_spec entries text with ⟨hnone, -⟩ | ⟨best, hbest, hspec⟩
  · rw [hnone] at h
    exact absurd h nofun
  · rw [hbest] at h
    exact Option.some.inj h ▸ hspec

/-- The value of a placeholder is that of the map. -/
theorem mem_of_secret_mem {entries : List (Text × Text)} {skip : ℕ} {text placeholder value : Text}
    (h : Piece.secret placeholder value ∈ pieces entries skip text) :
    (placeholder, value) ∈ entries := by
  induction text generalizing skip with
  | nil => simp [pieces] at h
  | cons c rest ih =>
    cases skip with
    | succ skip => exact ih h
    | zero =>
      rw [pieces] at h
      split at h
      · rename_i hlongest
        rcases List.mem_cons.mp h with heq | h
        · obtain ⟨rfl, rfl⟩ := Piece.secret.inj heq
          exact (isLongest_of_longest hlongest).mem
        · exact ih h
      · rcases List.mem_cons.mp h with heq | h
        · exact absurd heq nofun
        · exact ih h

/-- Before anything is replaced, the pieces are the text. -/
theorem render_nil (replacements : Replacements) (skip : ℕ) (text : Text) :
    render [] (pieces replacements.entries skip text) = text.drop skip := by
  induction text generalizing skip with
  | nil => simp [pieces, render]
  | cons c rest ih =>
    cases skip with
    | succ skip => exact ih skip
    | zero =>
      rw [pieces]
      split
      · rename_i placeholder value hlongest
        have hspec := isLongest_of_longest hlongest
        obtain ⟨tail, htail⟩ := hspec.starts
        obtain ⟨d, more, hmore⟩ :=
          List.exists_cons_of_ne_nil (replacements.placeholders _ hspec.mem)
        have hplaceholder : placeholder = d :: more := hmore
        have hrender : render [] (.secret placeholder value ::
            pieces replacements.entries (placeholder.length - 1) rest) =
            placeholder ++
              render [] (pieces replacements.entries (placeholder.length - 1) rest) := by
          simp [render, Piece.render]
        have htext : placeholder ++ tail = c :: rest := htail
        rw [hrender, ih, hplaceholder]
        rw [hplaceholder, List.cons_append] at htext
        obtain ⟨rfl, rfl⟩ := List.cons.inj htext
        simp
      · have hrender : render [] (.char c :: pieces replacements.entries 0 rest) =
            c :: render [] (pieces replacements.entries 0 rest) := by
          simp [render, Piece.render]
        rw [hrender, ih]
        rfl

theorem render_cons (done : List Text) (piece : Piece) (ps : List Piece) :
    render done (piece :: ps) = piece.render done ++ render done ps := List.flatMap_cons ..

theorem gaps_ne_nil (done : List Text) (placeholder : Text) (ps : List Piece) :
    gaps done placeholder ps ≠ [] := by
  cases ps with
  | nil => simp [gaps]
  | cons piece ps =>
    cases piece with
    | char c => exact prependFirst_ne_nil _ _
    | secret other value =>
      rw [gaps]
      split
      · simp
      · exact prependFirst_ne_nil _ _

/-- **The gaps with the value between them** are the text with one more placeholder replaced. -/
theorem intercalate_gaps {placeholder value : Text} (done : List Text) {ps : List Piece}
    (hvalue : ∀ other, Piece.secret placeholder other ∈ ps → other = value) :
    value.intercalate (gaps done placeholder ps) = render (done ++ [placeholder]) ps := by
  induction ps with
  | nil => simp [gaps, render]
  | cons piece ps ih =>
    have ih := ih fun other hother => hvalue other (List.mem_cons_of_mem _ hother)
    rw [render_cons]
    cases piece with
    | char c =>
      rw [gaps, intercalate_prependFirst, ih]
      rfl
    | secret other otherValue =>
      rw [gaps]
      by_cases hsame : other = placeholder
      · rw [if_pos hsame, List.intercalate_cons_of_ne_nil (gaps_ne_nil done placeholder ps), ih,
          List.nil_append]
        have hother : otherValue = value := hvalue otherValue (hsame ▸ List.mem_cons_self)
        simp [Piece.render, hsame, hother]
      · rw [if_neg hsame, intercalate_prependFirst, ih]
        congr 1
        simp [Piece.render, hsame]

/-- A placeholder that the text does not have leaves one gap. -/
theorem length_gaps {placeholder : Text} (done : List Text) {ps : List Piece}
    (h : ∀ value, Piece.secret placeholder value ∉ ps) : (gaps done placeholder ps).length = 1 := by
  have hprepend : ∀ (text : Text) (parts : List Text), parts.length = 1 →
      (prependFirst text parts).length = 1 := by
    intro text parts hparts
    cases parts with
    | nil => simp [prependFirst]
    | cons first rest => simpa [prependFirst] using hparts
  induction ps with
  | nil => simp [gaps]
  | cons piece ps ih =>
    have ih := ih fun value hvalue => h value (List.mem_cons_of_mem _ hvalue)
    cases piece with
    | char c => exact hprepend _ _ ih
    | secret other value =>
      have hne : other ≠ placeholder := by
        rintro rfl
        exact h value List.mem_cons_self
      rw [gaps, if_neg hne]
      exact hprepend _ _ ih

/-! ### When the substitution is exact -/

/-- **One step** that finds nothing but the placeholders of the text. -/
theorem replaceAll_clean {replacements : Replacements} {text placeholder value : Text}
    (hentry : (placeholder, value) ∈ replacements.entries) {done : List Text}
    (hsplit : splitFrom placeholder 0 (render done (pieces replacements.entries 0 text)) =
      gaps done placeholder (pieces replacements.entries 0 text))
    (hliteral : Piece.secret placeholder value ∈ pieces replacements.entries 0 text →
      isLiteral value = true) :
    replaceAll placeholder value (render done (pieces replacements.entries 0 text)) =
      render (done ++ [placeholder]) (pieces replacements.entries 0 text) := by
  have hvalue : ∀ other, Piece.secret placeholder other ∈ pieces replacements.entries 0 text →
      other = value := by
    intro other hother
    have hmem := mem_of_secret_mem hother
    exact (Prod.mk.inj (List.inj_on_of_nodup_map replacements.nodup hmem hentry rfl)).2
  by_cases htext : Piece.secret placeholder value ∈ pieces replacements.entries 0 text
  · rw [replaceAll_literal (hliteral htext), hsplit, intercalate_gaps done hvalue]
  · -- nothing is found, so the value does not matter
    have hnone : ∀ other, Piece.secret placeholder other ∉ pieces replacements.entries 0 text := by
      intro other hother
      exact htext (hvalue other hother ▸ hother)
    have hsingle := length_gaps done hnone
    have hunchanged : render (done ++ [placeholder]) (pieces replacements.entries 0 text) =
        render done (pieces replacements.entries 0 text) := by
      have hpiece : ∀ piece ∈ pieces replacements.entries 0 text,
          piece.render (done ++ [placeholder]) = piece.render done := by
        intro piece hpiece
        cases piece with
        | char c => rfl
        | secret other otherValue =>
          have hne : other ≠ placeholder := by
            rintro rfl
            exact hnone otherValue hpiece
          simp [Piece.render, hne]
      exact List.flatMap_congr hpiece
    rw [hunchanged]
    unfold replaceAll
    rw [replaceFrom_single (hsplit ▸ hsingle)]
    rfl

/-- All steps from one on. -/
theorem foldl_clean {replacements : Replacements} {text : Text} {done : List Text}
    {todo : List (Text × Text)} (htodo : ∀ entry ∈ todo, entry ∈ replacements.entries)
    (hclean : Clean (pieces replacements.entries 0 text) done todo) :
    todo.foldl (fun next entry => replaceAll entry.1 entry.2 next)
        (render done (pieces replacements.entries 0 text)) =
      render (done ++ todo.map Prod.fst) (pieces replacements.entries 0 text) := by
  induction todo generalizing done with
  | nil => simp
  | cons entry todo ih =>
    obtain ⟨hsplit, hliteral, hrest⟩ := hclean
    rw [List.foldl_cons, replaceAll_clean (htodo entry List.mem_cons_self) hsplit hliteral,
      ih (fun other hother => htodo other (List.mem_cons_of_mem _ hother)) hrest]
    simp

/-- **When the substitution is exact**: where each step finds its placeholder in the places that
    the text has it in and nowhere else, and puts in a literal value. -/
theorem replace_exact {replacements : Replacements} {value : Text}
    (hclean : Clean (pieces replacements.entries 0 value) [] replacements.entries) :
    replaceSecretPlaceholders value replacements = substituted value replacements := by
  have hfold := foldl_clean (fun _ h => h) hclean
  rw [render_nil] at hfold
  unfold replaceSecretPlaceholders
  rw [show value = value.drop 0 from rfl, hfold, List.nil_append]
  -- every placeholder that is found is one of the map
  refine List.flatMap_congr fun piece hpiece => ?_
  cases piece with
  | char c => rfl
  | secret placeholder secretValue =>
    have hmem : placeholder ∈ replacements.entries.map Prod.fst :=
      List.mem_map_of_mem (mem_of_secret_mem hpiece)
    exact if_pos hmem

/-! ### Three requests -/

/-- The entries for a `secret-basic` placeholder: written bare, or after the name of the scheme. -/
def basicEntries (placeholder header : Text) : List (Text × Text) :=
  [("Basic " : Text), "basic ", "BASIC ", []].map fun scheme => (scheme ++ placeholder, header)

def basicPlaceholder : Text := "\x7b\x7bsecret-basic:username=user,password=pass\x7d\x7d"

def basicReplacements : Replacements where
  entries := basicEntries basicPlaceholder "Basic bWU6cGFzcw=="
  nodup := by decide +kernel
  placeholders := by decide +kernel

/-- A header that names the scheme has it once. -/
theorem basic_exact : replaceSecretPlaceholders ("Basic " ++ basicPlaceholder) basicReplacements =
    substituted ("Basic " ++ basicPlaceholder) basicReplacements :=
  replace_exact (by decide +kernel)

def passwordReplacements : Replacements where
  entries := [("\x7b\x7bsecret:password\x7d\x7d", "pa$$word")]
  nodup := by decide
  placeholders := by decide

/-- **A secret arrives changed**: of two dollar signs in a row one is sent. -/
theorem dollars_lost :
    replaceSecretPlaceholders "\x7b\x7bsecret:password\x7d\x7d" passwordReplacements = "pa$word" ∧
      replaceSecretPlaceholders "\x7b\x7bsecret:password\x7d\x7d" passwordReplacements ≠
        substituted "\x7b\x7bsecret:password\x7d\x7d" passwordReplacements := by
  decide +kernel

/-- The steps of two maps may go wrong in ways that make up for each other: the first value loses a
    dollar sign and has its placeholder replaced, and is as it should be. -/
def evenReplacements : Replacements where
  entries := [("\x7b\x7bsecret:a\x7d\x7d", "\x7b\x7bsecret:b\x7d\x7d$$"),
    ("\x7b\x7bsecret:b\x7d\x7d", "\x7b\x7bsecret:b\x7d\x7d$")]
  nodup := by decide
  placeholders := by decide

example : replaceSecretPlaceholders "\x7b\x7bsecret:a\x7d\x7d" evenReplacements =
    substituted "\x7b\x7bsecret:a\x7d\x7d" evenReplacements := by decide +kernel

end KodyCelld.Secrets.Placeholders
