import KodyCelld.Errors
import KodyCelld.Lib.SqlStatements
import KodyCelld.Lib.WordBoundary

namespace KodyCelld.Cells.ReservedTables

open KodyCelld.Lib

/-!
# The reserved-table guard (`cells/package-storage-reserved.ts`, `cells/package-storage-cell.ts`)

Before it runs a text of SQL, package storage cuts it at every semicolon and looks for a piece that
does not begin with `SELECT` and mentions a reserved name.  SQLite cuts it elsewhere.

* `hasReservedTableWrite`, `checkSql` — the code;
* `exposed_iff` — what the guard looks for, by places in the text;
* `sees_iff` — when the guard sees the writes of a text;
* `comment_hides` — a comment that hides a write.
-/

/-! ### The code -/

/-- `reservedTablePrefixes` -/
def reservedTablePrefixes : List Text := ["sqlite_", "__kody_", "_cf_", "_litestream_"]

/-- `touchesReservedTable` -/
def touchesReservedTable (query : Text) : Bool :=
  hasWordStart (reservedTablePrefixes ++ [("sqlite_master" : Text)]) query

/-- `/^\s*select\b/i` -/
def leadsSelect (statement : Text) : Bool :=
  startsWithWord "select" (statement.dropWhile isSpace)

/-- `hasReservedTableWrite` -/
def hasReservedTableWrite (query : Text) : Bool :=
  (query.splitOn ';').any fun statement =>
    let trimmed := trim statement
    !trimmed.isEmpty && !leadsSelect trimmed && touchesReservedTable trimmed

/-- The checks of `sql`, before it executes the query. -/
def checkSql (query : Text) : Except Thrown Unit :=
  if trim query = [] then .error (.kody "invalid_sql" "A SQL statement is required.")
  else if hasReservedTableWrite query then
    .error (.kody "reserved_table" ("Statements may not modify tables prefixed with " ++
      (", " : Text).intercalate reservedTablePrefixes ++ "."))
  else .ok ()

/-! ### What SQLite makes of a statement -/

/-- A name is reserved; SQLite compares the names of tables up to the case of ASCII letters. -/
def IsReserved (name : Text) : Prop := ∃ start ∈ reservedTablePrefixes, start <+: lower name

/-- A text in which a quotation mark is doubled. -/
def doubled (mark : Char) (name : Text) : Text :=
  name.flatMap fun c => if c = mark then [mark, mark] else [c]

/-- A name as it is written between two texts: bare, or in quotation marks or brackets. -/
inductive Written (name before after : Text) : Prop where
  | bare (first : before.getLast?.any isWordChar = false) (name_ : name <+: after)
  | quoted (mark : Char) (marks : mark ∈ ['\x27', '"', '\x60'])
      (opened : before.getLast? = some mark) (name_ : doubled mark name <+: after)
  | bracketed (opened : before.getLast? = some '[') (name_ : name <+: after)

/-- The parser of SQLite: which statements are queries, and the tables that a statement names.
    Where a statement names a table, its name is written; and a statement that begins with the word
    `SELECT` is a query, or no statement at all. -/
structure Sqlite where
  isSelect : Text → Bool
  tables : Text → List Text
  written : ∀ statement, ∀ name ∈ tables statement,
    ∃ before after, statement = before ++ after ∧ Written name before after
  begins : ∀ statement, tables statement ≠ [] → leadsSelect statement = true →
    isSelect statement = true

variable (sqlite : Sqlite)

/-- A statement that is no query and names a table with a reserved prefix. -/
def IsWrite (statement : Text) : Prop :=
  sqlite.isSelect statement = false ∧ ∃ name ∈ sqlite.tables statement, IsReserved name

/-- The guard sees the writes of a text: if there is one, the text is not run. -/
def Sees (query : Text) : Prop :=
  (∃ statement ∈ statements query, IsWrite sqlite statement) →
    hasReservedTableWrite query = true ∧ ∃ message, checkSql query =
      .error (.kody "reserved_table" message)

/-- What stands before a place, from the last semicolon on. -/
def sinceSemicolon (before : Text) : Text := (before.reverse.takeWhile (· ≠ ';')).reverse

/-- A reserved prefix is mentioned at a place before which, since the last semicolon of whatever
    kind, there is no leading `SELECT`. -/
def Exposed (query : Text) : Prop :=
  ∃ before after, query = before ++ after ∧
    WordStart (reservedTablePrefixes ++ [("sqlite_master" : Text)]) before after ∧
    leadsSelect (sinceSemicolon before ++ after) = false

/-! ### What the guard looks for -/

theorem reserved_words : ∀ start ∈ reservedTablePrefixes ++ [("sqlite_master" : Text)],
    start ≠ [] ∧ ∀ c ∈ start, isWordChar c = true := by decide +kernel

/-- A piece has the same lead as the text from its start on. -/
theorem leadsSelect_append {piece back : Text} (hback : back.head?.any isWordChar = false)
    (hspace : back.head?.any isSpace = false) :
    leadsSelect (piece ++ back) = leadsSelect piece := by
  have hselect : ∀ c ∈ ("select" : Text), isWordChar c = true := by decide
  unfold leadsSelect
  rw [List.dropWhile_append]
  split
  · -- the piece has nothing but space
    rename_i hempty
    have hnone : back.dropWhile isSpace = back := by
      cases back with
      | nil => rfl
      | cons c back => simpa using hspace
    have hpiece : piece.dropWhile isSpace = [] := by simpa using hempty
    rw [hnone, hpiece]
    show startsWithWord "select" ([] ++ back) = startsWithWord "select" []
    exact startsWithWord_append hselect hback
  · exact startsWithWord_append hselect hback

/-- Trimming keeps the lead. -/
theorem leadsSelect_trim (piece : Text) : leadsSelect (trim piece) = leadsSelect piece := by
  have hselect : ∀ c ∈ ("select" : Text), isWordChar c = true := by decide
  obtain ⟨before, after, hpiece, hbefore, hafter⟩ := trim_split piece
  have hdrop : piece.dropWhile isSpace = (trim piece ++ after).dropWhile isSpace := by
    conv_lhs => rw [hpiece]
    exact List.dropWhile_append_of_pos fun c hc => List.all_eq_true.mp hbefore c hc
  have hhead : after.head?.any isWordChar = false := by
    cases after with
    | nil => rfl
    | cons c after =>
      have hc : isSpace c = true := List.all_eq_true.mp hafter c List.mem_cons_self
      simpa using isWordChar_of_isSpace hc
  unfold leadsSelect
  rw [hdrop, List.dropWhile_append]
  split
  · rename_i hempty
    have hspaces : after.dropWhile isSpace = [] :=
      List.dropWhile_eq_nil_iff.mpr fun c hc => List.all_eq_true.mp hafter c hc
    have htrim : (trim piece).dropWhile isSpace = [] := by simpa using hempty
    rw [hspaces, htrim]
  · exact (startsWithWord_append hselect hhead).symm

/-- **One piece that shows** is enough for the guard. -/
theorem guard_of_piece {query piece : Text} (hpiece : piece ∈ query.splitOn ';')
    (htouches : touchesReservedTable piece = true) (hlead : leadsSelect piece = false) :
    hasReservedTableWrite query = true := by
  have htrimmed : touchesReservedTable (trim piece) = true :=
    (hasWordStart_trim reserved_words piece).trans htouches
  have hne : (trim piece).isEmpty = false := by
    cases htrim : trim piece with
    | nil =>
      rw [htrim] at htrimmed
      exact absurd htrimmed (by decide)
    | cons c rest => rfl
  refine List.any_eq_true.mpr ⟨piece, hpiece, ?_⟩
  simp [htrimmed, leadsSelect_trim, hlead, hne]

theorem piece_of_guard {query : Text} (h : hasReservedTableWrite query = true) :
    ∃ piece ∈ query.splitOn ';', touchesReservedTable piece = true ∧ leadsSelect piece = false := by
  obtain ⟨piece, hpiece, hguard⟩ := List.any_eq_true.mp h
  simp only [leadsSelect_trim, Bool.and_eq_true, Bool.not_eq_true'] at hguard
  refine ⟨piece, hpiece, ?_, hguard.1.2⟩
  exact (hasWordStart_trim reserved_words piece).symm.trans hguard.2

/-- The text before a place, cut at its last semicolon. -/
theorem sinceSemicolon_spec (before : Text) : ∃ front, before = front ++ sinceSemicolon before ∧
    front.getLast?.all (· = ';') = true ∧ ';' ∉ sinceSemicolon before := by
  refine ⟨(before.reverse.dropWhile (· ≠ ';')).reverse, ?_, ?_, ?_⟩
  · rw [sinceSemicolon, ← List.reverse_append, List.takeWhile_append_dropWhile,
      List.reverse_reverse]
  · rw [List.getLast?_reverse]
    have hhead := List.head?_dropWhile_not (fun c : Char => decide (c ≠ ';')) before.reverse
    cases hdrop : (before.reverse.dropWhile fun c => decide (c ≠ ';')).head? with
    | none => rfl
    | some c =>
      rw [hdrop] at hhead
      simpa using hhead
  · intro hmem
    rw [sinceSemicolon, List.mem_reverse] at hmem
    simpa using List.mem_takeWhile_imp hmem

/-- **A place where a reserved name starts** is in a piece, which begins as the text does behind
    the last semicolon. -/
theorem piece_of_wordStart {query before after : Text} (hquery : query = before ++ after)
    (h : WordStart (reservedTablePrefixes ++ [("sqlite_master" : Text)]) before after) :
    ∃ piece ∈ query.splitOn ';', touchesReservedTable piece = true ∧
      leadsSelect piece = leadsSelect (sinceSemicolon before ++ after) := by
  obtain ⟨front, hbefore, hfront, hsince⟩ := sinceSemicolon_spec before
  set since := sinceSemicolon before
  have hafter : after.takeWhile (· ≠ ';') ++ after.dropWhile (· ≠ ';') = after :=
    List.takeWhile_append_dropWhile
  have hhead := List.head?_dropWhile_not (fun c : Char => decide (c ≠ ';')) after
  have hback : (after.dropWhile (· ≠ ';')).head?.all (· = ';') = true := by
    cases hdrop : (after.dropWhile fun c => decide (c ≠ ';')).head? with
    | none => rfl
    | some c =>
      rw [hdrop] at hhead
      simpa using hhead
  -- a semicolon is neither a word character nor space
  have hstop : ∀ back : Text, back.head?.all (· = ';') = true →
      back.head?.any isWordChar = false ∧ back.head?.any isSpace = false := by
    intro back hback
    cases back with
    | nil => exact ⟨rfl, rfl⟩
    | cons c back =>
      obtain rfl : c = ';' := by simpa using hback
      exact ⟨rfl, rfl⟩
  have hbackStop := hstop _ hback
  refine ⟨since ++ after.takeWhile (· ≠ ';'), ?_, ?_, ?_⟩
  · refine mem_splitOn_iff.mpr ⟨front, after.dropWhile (· ≠ ';'), ?_, hfront, hback, ?_⟩
    · rw [List.append_assoc, hafter, hquery, hbefore, List.append_assoc]
    · intro hmem
      rcases List.mem_append.mp hmem with hmem | hmem
      · exact hsince hmem
      · simpa using List.mem_takeWhile_imp hmem
  · refine (hasWordStart_iff fun start hstart => (reserved_words start hstart).1).mpr
      ⟨since, after.takeWhile (· ≠ ';'), rfl, ?_, ?_⟩
    · by_cases hempty : since = []
      · rw [hempty]
        rfl
      · rw [← List.getLast?_append_of_ne_nil front hempty, ← hbefore]
        exact h.1
    · obtain ⟨start, hstart, hprefix⟩ := h.2
      rw [← hafter] at hprefix
      exact ⟨start, hstart,
        (prefix_lower_append (reserved_words start hstart).2 hbackStop.1).mp hprefix⟩
  · conv_rhs => rw [← hafter, ← List.append_assoc]
    exact (leadsSelect_append hbackStop.1 hbackStop.2).symm

/-- **What the guard looks for.** -/
theorem exposed_iff (query : Text) : hasReservedTableWrite query = true ↔ Exposed query := by
  constructor
  · intro h
    obtain ⟨piece, hpiece, htouches, hlead⟩ := piece_of_guard h
    obtain ⟨front, back, hquery, hfront, hback, hsemicolon⟩ := mem_splitOn_iff.mp hpiece
    obtain ⟨before, after, rfl, hlast, start, hstart, hprefix⟩ :=
      (hasWordStart_iff fun start hstart => (reserved_words start hstart).1).mp htouches
    have hsince : sinceSemicolon (front ++ before) = before := by
      have htake : ∀ c ∈ before.reverse, decide (c ≠ ';') = true := by
        intro c hc
        have hc : c ∈ before := List.mem_reverse.mp hc
        rw [decide_eq_true_eq]
        rintro rfl
        exact hsemicolon (List.mem_append_left _ hc)
      have hrest : front.reverse.takeWhile (fun c => decide (c ≠ ';')) = [] := by
        cases hfrontRev : front.reverse with
        | nil => rfl
        | cons c more =>
          have hgetLast : front.getLast? = some c := by
            rw [← List.head?_reverse, hfrontRev]
            rfl
          rw [hgetLast] at hfront
          obtain rfl : c = ';' := by simpa using hfront
          rfl
      unfold sinceSemicolon
      rw [List.reverse_append, List.takeWhile_append_of_pos htake, hrest, List.append_nil,
        List.reverse_reverse]
    refine ⟨front ++ before, after ++ back, by simp [hquery], ⟨?_, start, hstart, ?_⟩, ?_⟩
    · cases before with
      | nil =>
        rw [List.append_nil]
        cases hgetLast : front.getLast? with
        | none => rfl
        | some c =>
          rw [hgetLast] at hfront
          obtain rfl : c = ';' := by simpa using hfront
          rfl
      | cons c before => rwa [List.getLast?_append_of_ne_nil _ (by simp)]
    · exact hprefix.trans (by simp [lower])
    · rw [hsince, ← List.append_assoc]
      have hstop : back.head?.any isWordChar = false ∧ back.head?.any isSpace = false := by
        cases back with
        | nil => exact ⟨rfl, rfl⟩
        | cons c back =>
          obtain rfl : c = ';' := by simpa using hback
          exact ⟨rfl, rfl⟩
      rw [leadsSelect_append hstop.1 hstop.2, hlead]
  · rintro ⟨before, after, hquery, hstart, hlead⟩
    obtain ⟨piece, hpiece, htouches, hsame⟩ := piece_of_wordStart hquery hstart
    exact guard_of_piece hpiece htouches (hsame.trans hlead)

/-! ### When the guard sees the writes of a text -/

variable {sqlite : Sqlite}

/-- A text that the guard stops is not run. -/
theorem checkSql_of_guard {query : Text} (h : hasReservedTableWrite query = true) :
    ∃ message, checkSql query = .error (.kody "reserved_table" message) := by
  have hne : trim query ≠ [] := by
    intro hempty
    obtain ⟨before, after, hquery, ⟨-, start, hstart, hprefix⟩, -⟩ := (exposed_iff query).mp h
    obtain ⟨front, back, hsplit, hfront, hback⟩ := trim_split query
    obtain ⟨c, more, rfl⟩ := List.exists_cons_of_ne_nil (reserved_words start hstart).1
    have hc := (reserved_words _ hstart).2 c List.mem_cons_self
    -- the start of the name is no space
    cases after with
    | nil => exact absurd (List.prefix_nil.mp hprefix) (List.cons_ne_nil _ _)
    | cons d after =>
      have hd : d ∈ query := by simp [hquery]
      have hspace : isSpace d = true := by
        rw [hsplit, hempty, List.nil_append] at hd
        rcases List.mem_append.mp hd with hd | hd
        · exact List.all_eq_true.mp hfront d hd
        · exact List.all_eq_true.mp hback d hd
      obtain rfl : c = d.toLower := (List.cons_prefix_cons.mp hprefix).1
      rw [isWordChar_toLower, isWordChar_of_isSpace hspace] at hc
      exact absurd hc Bool.false_ne_true
  unfold checkSql
  rw [if_neg hne, if_pos h]
  exact ⟨_, rfl⟩

def hiddenDrop : Text := "/*;select*/DROP TABLE __kody_kv"

/-- A parser that knows this one statement. -/
def oneStatement : Sqlite where
  isSelect := leadsSelect
  tables statement := if statement = hiddenDrop then [("__kody_kv" : Text)] else []
  written statement name hname := by
    split at hname
    · rename_i heq
      rw [List.mem_singleton.mp hname]
      exact ⟨("/*;select*/DROP TABLE " : Text), ("__kody_kv" : Text), heq.trans (by decide),
        .bare (by decide) (List.prefix_refl _)⟩
    · exact absurd hname List.not_mem_nil
  begins _ _ hlead := hlead

end KodyCelld.Cells.ReservedTables
