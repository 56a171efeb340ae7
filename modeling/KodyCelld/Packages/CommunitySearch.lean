import KodyCelld.Lib.Like
import KodyCelld.Packages.CommunityStore

namespace KodyCelld.Packages.Community

open KodyCelld.Lib KodyCelld.Cells

/-!
# Searching the catalogue (`packages/community-store.ts`)

A query is folded by JavaScript, the stored texts by SQLite, and SQLite folds the letters of ASCII
only.

* `search` — the code, with `searchTerms` and `matchesTerm`;
* `found_iff`, `wanted_of_found` — what a term matches, and that it is what it should;
* `search_exact` — when a search returns the first of the listings that have the terms;
* `cafe_missed` — a term that occurs verbatim and is not found.
-/

/-! ### Letter case -/

/-- The words of a text. -/
def words (text : Text) : List Text := (splitSpaces text).filter (· ≠ [])

/-- `toLowerCase`, and which texts are equal up to letter case.  `toLowerCase` leaves no letter
    from A to Z, changes nothing but the case of a text's words, and SQLite's `lower` changes
    nothing but the case either. -/
structure LetterCase where
  toLowerCase : Text → Text
  Alike : Text → Text → Prop
  alike : Equivalence Alike
  lowered : ∀ text, lower (toLowerCase text) = toLowerCase text
  words_alike : ∀ text, List.Forall₂ Alike (words (toLowerCase text)) (words text)
  lower_alike : ∀ text, Alike (lower text) text

/-- The `LIKE` of a SQLite with its limit on patterns.  What it does to texts with a zero character
    is not documented. -/
structure Sqlite where
  like : (pattern text : Text) → Bool
  patternLimit : ℕ
  like_plain : ∀ pattern text, '\x00' ∉ pattern → '\x00' ∉ text →
    like pattern text = likeMatch pattern text

/-! ### The search -/

/-- `CommunityListing`: what a search shows of a package. -/
structure CommunityListing where
  name : Text
  version : Text
  description : Text
  publisher : Text
  keywords : List Text
  manifest : PackageManifest
  readme : Text
  installs : ℕ
  fileCount : ℕ
  publishedAt : ℕ
  updatedAt : ℕ

/-- `toListing`; its `userId` is dropped by the search. -/
def toListing (row : CommunityRow) (store : CommunityStore) : CommunityListing where
  name := row.name
  version := row.version
  description := row.description
  publisher := row.publisher
  keywords := if row.keywords = [] then [] else row.keywords.splitOn ' '
  manifest := row.manifest
  readme := ((store.files.find? (row.name, "README.md")).map PackageFileRow.content).getD []
  installs := row.installs
  fileCount := (fileRows row.name store).length
  publishedAt := row.createdAt
  updatedAt := row.updatedAt

/-- `communityLimits.maxSearchResults` -/
def maxSearchResults : ℕ := 50

/-- `Math.min(Math.max(1, input.limit ?? 20), communityLimits.maxSearchResults)` -/
def effectiveLimit (limit : Option ℤ) : ℕ :=
  (min (max 1 (limit.getD 20)) (maxSearchResults : ℤ)).toNat

variable (letters : LetterCase) (sqlite : Sqlite)

/-- The terms of a query, as the search looks for them. -/
def searchTerms (query : Option Text) : List Text :=
  (((splitSpaces (letters.toLowerCase (query.getD []))).map trim).filter (· ≠ [])).take 8

/-- `(lower(name) LIKE ? ESCAPE '\' OR lower(description) LIKE ? … OR keywords LIKE ? …)` -/
def matchesTerm (row : CommunityRow) (term : Text) : Bool :=
  sqlite.like (containsPattern term) (lower row.name) ||
    sqlite.like (containsPattern term) (lower row.description) ||
    sqlite.like (containsPattern term) row.keywords

/-- The `WHERE` clause. -/
def isFound (query : Option Text) (row : CommunityRow) : Bool :=
  (searchTerms letters query).all (matchesTerm sqlite row)

/-- `ORDER BY installs DESC, updated_at DESC`: whether the first row may stand before the second. -/
def RanksBefore (a b : CommunityRow) : Prop :=
  b.installs < a.installs ∨ b.installs = a.installs ∧ b.updatedAt ≤ a.updatedAt

instance (a b : CommunityRow) : Decidable (RanksBefore a b) :=
  inferInstanceAs (Decidable (_ ∨ _))

/-- The rows that are found, in order. -/
def foundRows (query : Option Text) (store : CommunityStore) : List CommunityRow :=
  (store.listings.rows.filter (isFound letters sqlite query)).insertionSort RanksBefore

/-- What SQLite throws for a pattern over its limit. -/
def tooComplex : Thrown := .error "LIKE or GLOB pattern too complex"

/-- `search` -/
def search (query : Option Text) (limit : Option ℤ) (store : CommunityStore) :
    Except Thrown (List CommunityListing) :=
  if (searchTerms letters query).any fun term =>
      decide (sqlite.patternLimit < utf8Length (containsPattern term)) then .error tooComplex
  else .ok (((foundRows letters sqlite query store).take (effectiveLimit limit)).map fun row =>
    toListing row store)

/-! ### What a search is for -/

/-- A text has a term somewhere, literally up to letter case. -/
def Occurs (term text : Text) : Prop := ∃ part, part <:+: text ∧ letters.Alike part term

/-- Each of the first eight words of the query occurs in the name, the description or the
    keywords. -/
def Wanted (query : Option Text) (row : CommunityRow) : Prop :=
  ∀ term ∈ (words (query.getD [])).take 8,
    ∃ column ∈ [row.name, row.description, row.keywords], Occurs letters term column

/-- The listings are the first `n` of the rows that satisfy a predicate, in an order that puts the
    most installed first and of these the latest. -/
def FirstOf (n : ℕ) (rows : List CommunityRow) (P : CommunityRow → Prop)
    (listed : List CommunityRow) : Prop :=
  ∃ order : List CommunityRow, order.Pairwise RanksBefore ∧ order.Nodup ∧
    (∀ row, row ∈ order ↔ row ∈ rows ∧ P row) ∧ listed = order.take n

/-- A search returns the first of the listings that the query asks for. -/
def Exact (query : Option Text) (limit : Option ℤ) (store : CommunityStore) : Prop :=
  ∃ listed, search letters sqlite query limit store =
      .ok (listed.map fun row => toListing row store) ∧
    FirstOf (effectiveLimit limit) store.listings.rows (Wanted letters query) listed

/-- The terms as the two foldings leave them: each occurs in a column up to the case of the letters
    of ASCII, after `toLowerCase` has folded the query. -/
def Folded (query : Option Text) (row : CommunityRow) : Prop :=
  ∀ term ∈ searchTerms letters query,
    ∃ column ∈ [row.name, row.description, row.keywords], ∃ part, part <:+: column ∧
      lower part = term

/-- What SQLite's `LIKE` is documented for: patterns within its limit, and no zero character. -/
structure Plain (query : Option Text) (store : CommunityStore) : Prop where
  terms : ∀ term ∈ searchTerms letters query,
    utf8Length (containsPattern term) ≤ sqlite.patternLimit ∧ '\x00' ∉ term
  columns : ∀ row ∈ store.listings.rows,
    '\x00' ∉ row.name ∧ '\x00' ∉ row.description ∧ '\x00' ∉ row.keywords

/-! ### Words -/

/-- The pieces between spaces. -/
theorem mem_splitSpaces {text piece : Text} (h : piece ∈ splitSpaces text) :
    ∀ c ∈ piece, c ∈ text ∧ isSpace c = false := by
  induction text generalizing piece with
  | nil =>
    rw [List.mem_singleton.mp h]
    exact fun c hc => absurd hc List.not_mem_nil
  | cons d text ih =>
    have hlater : ∀ piece ∈ splitSpaces text, ∀ c ∈ piece, c ∈ d :: text ∧ isSpace c = false :=
      fun piece hpiece c hc => (ih hpiece c hc).imp_left (List.mem_cons_of_mem d)
    rw [splitSpaces] at h
    split at h
    · rename_i heq
      -- there is always a piece
      cases text with
      | nil => exact absurd heq nofun
      | cons e text =>
        rw [splitSpaces] at heq
        split at heq
        · exact absurd heq nofun
        split at heq
        · split at heq
          · split at heq <;> exact absurd heq nofun
          · exact absurd heq nofun
        · exact absurd heq nofun
    · rename_i first rest heq
      have hrest : ∀ piece ∈ rest, ∀ c ∈ piece, c ∈ d :: text ∧ isSpace c = false :=
        fun piece hpiece => hlater piece (heq ▸ List.mem_cons_of_mem first hpiece)
      have hfirst : ∀ c ∈ first, c ∈ d :: text ∧ isSpace c = false :=
        hlater first (heq ▸ List.mem_cons_self)
      split at h
      · have hcut : piece = [] ∨ piece ∈ first :: rest := by
          split at h
          · split at h
            · exact .inr h
            · exact List.mem_cons.mp h
          · exact List.mem_cons.mp h
        rcases hcut with rfl | hpiece
        · exact fun c hc => absurd hc List.not_mem_nil
        · exact hlater piece (heq ▸ hpiece)
      · rename_i hspace
        rcases List.mem_cons.mp h with rfl | hpiece
        · intro c hc
          rcases List.mem_cons.mp hc with rfl | hc
          · exact ⟨List.mem_cons_self, Bool.eq_false_of_not_eq_true hspace⟩
          · exact hfirst c hc
        · exact hrest piece hpiece

/-- The pieces have no space to trim. -/
theorem searchTerms_eq (query : Option Text) : searchTerms letters query =
    (words (letters.toLowerCase (query.getD []))).take 8 := by
  have htrim : (splitSpaces (letters.toLowerCase (query.getD []))).map trim =
      splitSpaces (letters.toLowerCase (query.getD [])) := by
    refine (List.map_congr_left fun piece hpiece => ?_).trans (List.map_id _)
    exact trim_of_spaceless fun c hc => (mem_splitSpaces hpiece c hc).2
  unfold searchTerms words
  rw [htrim]

variable {letters sqlite} {query : Option Text} {store : CommunityStore}

/-- A term has no letter from A to Z. -/
theorem lower_term {term : Text} (h : term ∈ searchTerms letters query) : lower term = term := by
  rw [searchTerms_eq] at h
  have hpiece := (List.mem_filter.mp (List.mem_of_mem_take h)).1
  have hlowered := letters.lowered (query.getD [])
  have hchars : ∀ c ∈ letters.toLowerCase (query.getD []), c.toLower = id c :=
    List.map_inj_left.mp (hlowered.trans (List.map_id _).symm)
  refine (List.map_congr_left fun c hc => ?_).trans (List.map_id term)
  exact hchars c (mem_splitSpaces hpiece c hc).1

/-- A word of the query has a term that is the word up to case. -/
theorem exists_alike {α β : Type} {R : α → β → Prop} {as : List α} {bs : List β}
    (h : List.Forall₂ R as bs) {b : β} (hb : b ∈ bs) : ∃ a ∈ as, R a b := by
  induction h with
  | nil => exact absurd hb List.not_mem_nil
  | cons hab _ ih =>
    rcases List.mem_cons.mp hb with rfl | hb
    · exact ⟨_, List.mem_cons_self, hab⟩
    · obtain ⟨a, ha, hrel⟩ := ih hb
      exact ⟨a, List.mem_cons_of_mem _ ha, hrel⟩

/-! ### What is found -/

/-- **What a search finds**: the rows that have each term up to the case of ASCII letters. -/
theorem found_iff (hplain : Plain letters sqlite query store) {row : CommunityRow}
    (hrow : row ∈ store.listings.rows) :
    isFound letters sqlite query row = true ↔ Folded letters query row := by
  obtain ⟨hname, hdescription, hkeywords⟩ := hplain.columns row hrow
  have hlower : ∀ text : Text, '\x00' ∉ text → '\x00' ∉ lower text := by
    intro text htext hmem
    obtain ⟨c, hc, hzero⟩ := List.mem_map.mp hmem
    rcases toLower_cases c with hsame | ⟨n, hlow, hhigh, rfl⟩
    · rw [hsame] at hzero
      exact htext (hzero ▸ hc)
    · -- no letter is folded to a zero character
      have hletters : ∀ n ∈ List.range 91, 65 ≤ n → (Char.ofNat n).toLower ≠ '\x00' := by
        decide +kernel
      exact hletters n (List.mem_range.mpr hhigh) hlow hzero
  have hpattern : ∀ term : Text, '\x00' ∉ term → '\x00' ∉ containsPattern term := by
    intro term hterm hmem
    unfold containsPattern at hmem
    rcases List.mem_append.mp hmem with hmem | hmem
    · rcases List.mem_cons.mp hmem with hzero | hmem
      · exact absurd hzero (by decide)
      · obtain ⟨c, hc, hzero⟩ := List.mem_flatMap.mp hmem
        split at hzero
        · rcases List.mem_cons.mp hzero with hzero | hzero
          · exact absurd hzero (by decide)
          · exact hterm (List.mem_singleton.mp hzero ▸ hc)
        · exact hterm (List.mem_singleton.mp hzero ▸ hc)
    · exact absurd (List.mem_singleton.mp hmem) (by decide)
  unfold isFound Folded
  rw [List.all_eq_true]
  refine forall₂_congr fun term hterm => ?_
  have hzero := hpattern term (hplain.terms term hterm).2
  unfold matchesTerm
  rw [sqlite.like_plain _ _ hzero (hlower _ hname),
    sqlite.like_plain _ _ hzero (hlower _ hdescription),
    sqlite.like_plain _ _ hzero hkeywords, likeMatch_lower, likeMatch_lower, Bool.or_eq_true,
    Bool.or_eq_true, likeMatch_contains, likeMatch_contains, likeMatch_contains, lower_term hterm]
  simp only [List.mem_cons, List.not_mem_nil, or_false, exists_eq_or_imp, exists_eq_left, or_assoc]

/-- **What is found is asked for**: the foldings change nothing but the case. -/
theorem wanted_of_folded {row : CommunityRow} (h : Folded letters query row) :
    Wanted letters query row := by
  intro term hterm
  have hwords : List.Forall₂ letters.Alike (searchTerms letters query)
      ((words (query.getD [])).take 8) := by
    rw [searchTerms_eq]
    exact List.forall₂_take 8 (letters.words_alike _)
  obtain ⟨folded, hfolded, halike⟩ := exists_alike hwords hterm
  obtain ⟨column, hcolumn, part, hpart, hlower⟩ := h folded hfolded
  refine ⟨column, hcolumn, part, hpart, ?_⟩
  have hcase := letters.alike.symm (letters.lower_alike part)
  rw [hlower] at hcase
  exact letters.alike.trans hcase halike

/-! ### The order of the listings -/

theorem ranksBefore_total (a b : CommunityRow) : RanksBefore a b ∨ RanksBefore b a := by
  unfold RanksBefore
  omega

theorem ranksBefore_trans {a b c : CommunityRow} (hab : RanksBefore a b) (hbc : RanksBefore b c) :
    RanksBefore a c := by
  unfold RanksBefore at *
  omega

theorem pairwise_insertionSort (rows : List CommunityRow) :
    (rows.insertionSort RanksBefore).Pairwise RanksBefore := by
  have : Std.Total RanksBefore := ⟨ranksBefore_total⟩
  have : IsTrans CommunityRow RanksBefore := ⟨fun _ _ _ => ranksBefore_trans⟩
  exact List.pairwise_insertionSort _ rows

theorem mem_insertionSort {rows : List CommunityRow} {row : CommunityRow} :
    row ∈ rows.insertionSort RanksBefore ↔ row ∈ rows :=
  (List.perm_insertionSort _ _).mem_iff

theorem nodup_insertionSort {rows : List CommunityRow} (h : rows.Nodup) :
    (rows.insertionSort RanksBefore).Nodup :=
  (List.perm_insertionSort _ _).nodup_iff.mpr h

theorem nodup_rows (store : CommunityStore) : store.listings.rows.Nodup :=
  List.Nodup.of_map _ store.listings.nodup

theorem mem_foundRows {row : CommunityRow} : row ∈ foundRows letters sqlite query store ↔
    row ∈ store.listings.rows ∧ isFound letters sqlite query row = true := by
  unfold foundRows
  rw [mem_insertionSort, List.mem_filter]

theorem nodup_foundRows : (foundRows letters sqlite query store).Nodup :=
  nodup_insertionSort ((nodup_rows store).filter _)

theorem pairwise_foundRows : (foundRows letters sqlite query store).Pairwise RanksBefore :=
  pairwise_insertionSort _

/-- In an order, what is taken stands before what is dropped. -/
theorem ranksBefore_of_take {order : List CommunityRow} (h : order.Pairwise RanksBefore) {n : ℕ}
    {a b : CommunityRow} (ha : a ∈ order.take n) (hb : b ∈ order.drop n) : RanksBefore a b := by
  rw [← List.take_append_drop n order, List.pairwise_append] at h
  exact h.2.2 a ha b hb

theorem mem_take_or_drop {order : List CommunityRow} (n : ℕ) {a : CommunityRow} (h : a ∈ order) :
    a ∈ order.take n ∨ a ∈ order.drop n := by
  rw [← List.take_append_drop n order] at h
  exact List.mem_append.mp h

/-- A row that stands behind `n` rows of an order stands behind the first `n` of them. -/
theorem ranksBefore_of_ahead {order ahead : List CommunityRow}
    (hsorted : order.Pairwise RanksBefore) {row : CommunityRow} (hnodup : ahead.Nodup)
    (hahead : ∀ other ∈ ahead, other ∈ order ∧ RanksBefore other row) {a : CommunityRow}
    (ha : a ∈ order.take ahead.length) : RanksBefore a row := by
  by_cases hin : a ∈ ahead
  · exact (hahead a hin).2
  · -- the first rows have no place for all of those ahead
    have hout : ∃ other ∈ ahead, other ∉ order.take ahead.length := by
      by_contra hall
      push Not at hall
      have hsub : (a :: ahead) ⊆ order.take ahead.length := by
        intro other hother
        rcases List.mem_cons.mp hother with rfl | hother
        · exact ha
        · exact hall other hother
      have hlength := (List.nodup_cons.mpr ⟨hin, hnodup⟩).subperm hsub |>.length_le
      have htake := List.length_take_le ahead.length order
      simp only [List.length_cons] at hlength
      omega
    obtain ⟨other, hother, hnot⟩ := hout
    have hdrop := (mem_take_or_drop ahead.length (hahead other hother).1).resolve_left hnot
    exact ranksBefore_trans (ranksBefore_of_take hsorted ha hdrop) (hahead other hother).2

/-! ### When a search is exact -/

/-- A listing that has the terms up to letter case, but not after the two foldings. -/
def Missed (letters : LetterCase) (query : Option Text) (row : CommunityRow) : Prop :=
  Wanted letters query row ∧ ¬ Folded letters query row

/-- Every missed listing stands behind `n` others that are found. -/
def MissedBehind (letters : LetterCase) (query : Option Text) (n : ℕ) (store : CommunityStore) :
    Prop :=
  ∀ row ∈ store.listings.rows, Missed letters query row → ∃ ahead : List CommunityRow,
    ahead.Nodup ∧ ahead.length = n ∧ ∀ other ∈ ahead,
      other ∈ store.listings.rows ∧ Folded letters query other ∧ RanksBefore other row

/-- Rows of the table with the same names, one by one, are the same rows. -/
theorem eq_of_names {as bs : List CommunityRow} (has : ∀ a ∈ as, a ∈ store.listings.rows)
    (hbs : ∀ b ∈ bs, b ∈ store.listings.rows)
    (hnames : as.map CommunityRow.name = bs.map CommunityRow.name) : as = bs := by
  induction as generalizing bs with
  | nil => exact (List.map_eq_nil_iff.mp hnames.symm).symm
  | cons a as ih =>
    cases bs with
    | nil => exact absurd hnames nofun
    | cons b bs =>
      obtain ⟨hname, hrest⟩ := List.cons.inj hnames
      rw [List.inj_on_of_nodup_map store.listings.nodup (has a List.mem_cons_self)
          (hbs b List.mem_cons_self) hname,
        ih (fun a ha => has a (List.mem_cons_of_mem _ ha))
          (fun b hb => hbs b (List.mem_cons_of_mem _ hb)) hrest]

/-- Listings that the search shows are those of rows that it finds. -/
theorem listed_eq {limit : Option ℤ} (hplain : Plain letters sqlite query store)
    {listed : List CommunityRow} (hrows : ∀ row ∈ listed, row ∈ store.listings.rows) :
    search letters sqlite query limit store = .ok (listed.map fun row => toListing row store) ↔
      listed = (foundRows letters sqlite query store).take (effectiveLimit limit) := by
  have hfits : ¬ ((searchTerms letters query).any fun term =>
      decide (sqlite.patternLimit < utf8Length (containsPattern term))) = true := by
    rw [List.any_eq_true]
    rintro ⟨term, hterm, hlong⟩
    have := (hplain.terms term hterm).1
    exact absurd (of_decide_eq_true hlong) (by omega)
  unfold search
  rw [if_neg hfits]
  constructor
  · intro h
    have hnames := congrArg (List.map CommunityListing.name) (Except.ok.inj h)
    rw [List.map_map, List.map_map] at hnames
    refine (eq_of_names (fun row hrow => ?_) hrows hnames).symm
    exact (mem_foundRows.mp (List.mem_of_mem_take hrow)).1
  · rintro rfl
    rfl

/-- What the first `n` found are, where the missed listings stand behind them. -/
theorem firstOf_found (hplain : Plain letters sqlite query store) {n : ℕ}
    (hmissed : MissedBehind letters query n store) :
    FirstOf n store.listings.rows (Wanted letters query)
      ((foundRows letters sqlite query store).take n) := by
  classical
  set found := foundRows letters sqlite query store with hfound
  have hmem : ∀ row, row ∈ found ↔ row ∈ store.listings.rows ∧ Folded letters query row := by
    intro row
    rw [hfound, mem_foundRows]
    exact and_congr_right fun hrow => found_iff hplain hrow
  -- a listing that is missed stands behind the first found, and there are `n` of these
  have hbehind : ∀ row ∈ store.listings.rows, Missed letters query row →
      (∀ a ∈ found.take n, RanksBefore a row) ∧ n ≤ found.length := by
    intro row hrow hmiss
    obtain ⟨ahead, hnodup, hlength, hahead⟩ := hmissed row hrow hmiss
    have hin : ∀ other ∈ ahead, other ∈ found ∧ RanksBefore other row := fun other hother =>
      ⟨(hmem other).mpr ⟨(hahead other hother).1, (hahead other hother).2.1⟩,
        (hahead other hother).2.2⟩
    refine ⟨fun a ha => ?_, ?_⟩
    · exact ranksBefore_of_ahead pairwise_foundRows hnodup hin (hlength.symm ▸ ha)
    · rw [← hlength]
      exact (hnodup.subperm fun other hother => (hin other hother).1).length_le
  -- the rest of the listings that are asked for, in order
  set rest := (store.listings.rows.filter fun row =>
    decide (Wanted letters query row ∧ row ∉ found.take n)) with hrest
  have hmemRest : ∀ row, row ∈ rest.insertionSort RanksBefore ↔
      row ∈ store.listings.rows ∧ Wanted letters query row ∧ row ∉ found.take n := by
    intro row
    rw [mem_insertionSort, hrest, List.mem_filter, decide_eq_true_eq]
  refine ⟨found.take n ++ rest.insertionSort RanksBefore, ?_, ?_, fun row => ?_, ?_⟩
  · refine List.pairwise_append.mpr ⟨pairwise_foundRows.sublist (List.take_sublist _ _),
      pairwise_insertionSort _, fun a ha b hb => ?_⟩
    obtain ⟨hrow, hwanted, hnot⟩ := (hmemRest b).mp hb
    by_cases hfolded : Folded letters query b
    · have hdrop := (mem_take_or_drop n ((hmem b).mpr ⟨hrow, hfolded⟩)).resolve_left hnot
      exact ranksBefore_of_take pairwise_foundRows ha hdrop
    · exact (hbehind b hrow ⟨hwanted, hfolded⟩).1 a ha
  · refine List.nodup_append.mpr ⟨nodup_foundRows.sublist (List.take_sublist _ _),
      nodup_insertionSort ((nodup_rows store).filter _), fun a ha b hb hab => ?_⟩
    exact ((hmemRest b).mp hb).2.2 (hab ▸ ha)
  · rw [List.mem_append, hmemRest]
    constructor
    · rintro (htake | ⟨hrow, hwanted, -⟩)
      · obtain ⟨hrow, hfolded⟩ := (hmem row).mp (List.mem_of_mem_take htake)
        exact ⟨hrow, wanted_of_folded hfolded⟩
      · exact ⟨hrow, hwanted⟩
    · rintro ⟨hrow, hwanted⟩
      by_cases htake : row ∈ found.take n
      · exact .inl htake
      · exact .inr ⟨hrow, hwanted, htake⟩
  · by_cases hlength : n ≤ found.length
    · rw [List.take_append_of_le_length (by rw [List.length_take]; omega), List.take_take, min_self]
    · -- everything that is asked for is found, and shown
      have hnone : rest = [] := by
        refine List.eq_nil_iff_forall_not_mem.mpr fun row hrow => ?_
        obtain ⟨hrow, hwanted, hnot⟩ := (hmemRest row).mp (mem_insertionSort.mpr hrow)
        by_cases hfolded : Folded letters query row
        · refine hnot ?_
          rw [List.take_of_length_le (by omega)]
          exact (hmem row).mpr ⟨hrow, hfolded⟩
        · exact hlength (hbehind row hrow ⟨hwanted, hfolded⟩).2
      rw [hnone, List.insertionSort_nil, List.append_nil, List.take_take, min_self]

/-- **When a search is exact**: exactly when every listing that has the terms up to letter case, but
    not after the foldings of JavaScript and SQLite, stands behind as many others as are shown. -/
theorem search_exact {limit : Option ℤ} (hplain : Plain letters sqlite query store) :
    Exact letters sqlite query limit store ↔
      MissedBehind letters query (effectiveLimit limit) store := by
  constructor
  · rintro ⟨listed, hsearch, order, hsorted, hnodup, horder, rfl⟩ row hrow ⟨hwanted, hfolded⟩
    have hrows : ∀ other ∈ order.take (effectiveLimit limit), other ∈ store.listings.rows :=
      fun other hother => ((horder other).mp (List.mem_of_mem_take hother)).1
    have hlisted := (listed_eq hplain hrows).mp hsearch
    have hshown : ∀ other ∈ order.take (effectiveLimit limit), Folded letters query other := by
      intro other hother
      have hfound := hother
      rw [hlisted] at hfound
      obtain ⟨hin, hmatch⟩ := mem_foundRows.mp (List.mem_of_mem_take hfound)
      exact (found_iff hplain hin).mp hmatch
    have hdrop : row ∈ order.drop (effectiveLimit limit) :=
      (mem_take_or_drop _ ((horder row).mpr ⟨hrow, hwanted⟩)).resolve_left
        fun htake => hfolded (hshown row htake)
    refine ⟨order.take (effectiveLimit limit), hnodup.sublist (List.take_sublist _ _), ?_,
      fun other hother => ⟨hrows other hother, hshown other hother,
        ranksBefore_of_take hsorted hother hdrop⟩⟩
    have hlong := List.length_pos_of_mem hdrop
    rw [List.length_drop] at hlong
    rw [List.length_take]
    omega
  · intro h
    have hfirst := firstOf_found hplain h
    refine ⟨_, (listed_eq hplain fun row hrow => ?_).mpr rfl, hfirst⟩
    exact (mem_foundRows.mp (List.mem_of_mem_take hrow)).1

/-! ### Letters with accents -/

/-- `toLowerCase` of a letter up to `ÿ`. -/
def latinLower (c : Char) : Char :=
  if 0xc0 ≤ c.toNat ∧ c.toNat ≤ 0xde ∧ c.toNat ≠ 0xd7 then Char.ofNat (c.toNat + 32) else c.toLower

theorem latinLower_facts (c : Char) : isSpace (latinLower c) = isSpace c ∧
    latinLower (latinLower c) = latinLower c ∧ (latinLower c).toLower = latinLower c ∧
    latinLower c.toLower = latinLower c := by
  by_cases h : c.toNat < 256
  · have hsmall : ∀ n ∈ List.range 256,
        isSpace (latinLower (Char.ofNat n)) = isSpace (Char.ofNat n) ∧
        latinLower (latinLower (Char.ofNat n)) = latinLower (Char.ofNat n) ∧
        (latinLower (Char.ofNat n)).toLower = latinLower (Char.ofNat n) ∧
        latinLower (Char.ofNat n).toLower = latinLower (Char.ofNat n) := by decide +kernel
    have hc := hsmall c.toNat (List.mem_range.mpr h)
    rwa [Char.ofNat_toNat] at hc
  · -- later letters are left alone
    have hlower : c.toLower = c := by
      rcases toLower_cases c with hsame | ⟨n, hlow, hhigh, rfl⟩
      · exact hsame
      · have hsmall : ∀ n ∈ List.range 91, (Char.ofNat n).toNat < 256 := by decide +kernel
        exact absurd (hsmall n (List.mem_range.mpr hhigh)) h
    have hsame : latinLower c = c := by
      unfold latinLower
      rw [if_neg (by omega), hlower]
    rw [hsame, hlower, hsame]
    exact ⟨rfl, rfl, rfl, rfl⟩

/-- Folding letters one by one keeps the words. -/
theorem splitSpaces_map {f : Char → Char} (hf : ∀ c, isSpace (f c) = isSpace c) (text : Text) :
    splitSpaces (text.map f) = (splitSpaces text).map (List.map f) := by
  induction text with
  | nil => rfl
  | cons c text ih =>
    rw [List.map_cons, splitSpaces, splitSpaces, ih, hf]
    cases splitSpaces text with
    | nil => rfl
    | cons first rest =>
      rw [List.map_cons]
      dsimp only
      split
      · cases text with
        | nil => rfl
        | cons d text =>
          rw [List.map_cons]
          dsimp only
          rw [hf]
          split
          · rfl
          · rfl
      · rfl

/-- A language of letters up to `ÿ`. -/
def latin : LetterCase where
  toLowerCase := List.map latinLower
  Alike a b := a.map latinLower = b.map latinLower
  alike := ⟨fun _ => rfl, Eq.symm, Eq.trans⟩
  lowered text := by
    unfold lower
    rw [List.map_map]
    exact List.map_congr_left fun c _ => (latinLower_facts c).2.2.1
  words_alike text := by
    have hwords : words (text.map latinLower) = (words text).map (List.map latinLower) := by
      unfold words
      rw [splitSpaces_map fun c => (latinLower_facts c).1, List.filter_map]
      congr 2
      funext word
      cases word <;> rfl
    rw [hwords, List.forall₂_map_left_iff, List.forall₂_same]
    intro word _
    rw [List.map_map]
    exact List.map_congr_left fun c _ => (latinLower_facts c).2.1
  lower_alike text := by
    unfold lower
    rw [List.map_map]
    exact List.map_congr_left fun c _ => (latinLower_facts c).2.2.2

/-- The limit is SQLite's default. -/
def plainSqlite : Sqlite where
  like := likeMatch
  patternLimit := 50000
  like_plain _ _ _ _ := rfl

/-- A listing that is described in capitals. -/
def cafeRow : CommunityRow where
  name := "@me/menu"
  userId := "user_me"
  publisher := "me"
  version := "1.0.0"
  description := "Menu of the CAFÉ"
  keywords := []
  manifest := plainManifest
  installs := 0
  createdAt := 1
  updatedAt := 1

def cafeStore : CommunityStore where
  listings := ⟨[cafeRow], List.nodup_singleton _⟩
  files := .empty

/-- A query of the letters A to Z is found in whatever case. -/
theorem menu_found : Exact latin plainSqlite (some "MENU of") none cafeStore := by
  have hplain : Plain latin plainSqlite (some "MENU of") cafeStore :=
    ⟨by decide +kernel, by
      intro row hrow
      rw [List.mem_singleton.mp hrow]
      decide +kernel⟩
  refine (search_exact hplain).mpr fun row hrow hmissed => absurd ?_ hmissed.2
  have hfound : isFound latin plainSqlite (some "MENU of") row = true := by
    rw [List.mem_singleton.mp hrow]
    decide +kernel
  exact (found_iff hplain hrow).mp hfound

/-- **A listing is missed by a word of its own description**: `toLowerCase` makes `café` of the
    query, and `lower` makes `cafÉ` of the text. -/
theorem cafe_missed : ¬ Exact latin plainSqlite (some "CAFÉ") none cafeStore := by
  rintro ⟨listed, hsearch, order, -, -, horder, hlisted⟩
  have hempty : search latin plainSqlite (some "CAFÉ") none cafeStore = .ok [] := by
    have hfound : (isFound latin plainSqlite (some "CAFÉ") cafeRow) = false := by decide +kernel
    have hrows : foundRows latin plainSqlite (some "CAFÉ") cafeStore = [] := by
      unfold foundRows
      rw [show cafeStore.listings.rows = [cafeRow] from rfl, List.filter_cons, hfound]
      rfl
    have hfits : ((searchTerms latin (some "CAFÉ")).any fun term =>
        decide (plainSqlite.patternLimit < utf8Length (containsPattern term))) = false := by
      decide +kernel
    unfold search
    rw [hfits, hrows]
    rfl
  have hwanted : Wanted latin (some "CAFÉ") cafeRow := by
    intro term hterm
    have hword : (words ((some "CAFÉ" : Option Text).getD [])).take 8 = [("CAFÉ" : Text)] := by
      decide +kernel
    rw [hword] at hterm
    rw [List.mem_singleton.mp hterm]
    refine ⟨cafeRow.description, by decide, ("CAFÉ" : Text), ?_, rfl⟩
    exact ⟨("Menu of the " : Text), [], rfl⟩
  have hin : cafeRow ∈ order := (horder cafeRow).mpr ⟨List.mem_cons_self, hwanted⟩
  rw [hempty] at hsearch
  have hnone : listed = [] := List.map_eq_nil_iff.mp (Except.ok.inj hsearch).symm
  rw [hnone] at hlisted
  rw [show effectiveLimit none = 20 from rfl] at hlisted
  rw [List.eq_nil_of_length_eq_zero (l := order) (by
    have := congrArg List.length hlisted
    rw [List.length_take] at this
    simp only [List.length_nil] at this
    omega)] at hin
  exact absurd hin List.not_mem_nil

end KodyCelld.Packages.Community
