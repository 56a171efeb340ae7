import KodyCelld.Lib.Texts
import KodyCelld.Memory.MemoryCell

namespace KodyCelld.Memory

open KodyCelld.Lib

/-!
# Searching memories (`cells/memory-cell.ts`, `ai/ranking.ts`)

A search ranks the lexical matches (and the hits of the vector store, when there is one), hides what
the conversation has seen, and cuts to the limit.  Only the first `4 * limit` lexical matches are
looked at, hidden or not.

* `reciprocalRankFusion`, `lexicalRanking`, `memorySearch` — the code;
* `fused_single` — one list alone is ranked as it is;
* `memorySearch_matches` — the matches of a lexical search, as one list;
* `search_fills` — what they are, and how many;
* `starved` — a search that hidden memories leave empty.
-/

/-! ### Rank fusion -/

def rrfK : ℕ := 60

/-- `scores.set(id, (scores.get(id) ?? 0) + amount)`, on a map in the order of its insertions. -/
def addScore (scores : List (Text × ℚ)) (id : Text) (amount : ℚ) : List (Text × ℚ) :=
  if id ∈ scores.map Prod.fst then
    scores.map fun entry => if entry.1 = id then (entry.1, entry.2 + amount) else entry
  else scores ++ [(id, amount)]

/-- `list.forEach((id, rank) => …)` from a rank on. -/
def addRanks (k : ℕ) : (rank : ℕ) → List Text → List (Text × ℚ) → List (Text × ℚ)
  | _, [], scores => scores
  | rank, id :: ids, scores =>
    addRanks k (rank + 1) ids (addScore scores id (1 / ((k : ℚ) + rank + 1)))

/-- `reciprocalRankFusion`; its sums are rounded in the source, where a single list gives the
    doubles nearest to 1/61, 1/62, …, which decrease as these do. -/
def reciprocalRankFusion (rankedLists : List (List Text)) (k : ℕ := rrfK) : List (Text × ℚ) :=
  rankedLists.foldl (fun scores list => addRanks k 0 list scores) []

/-- `fused.get(id)` -/
def scoreOf (scores : List (Text × ℚ)) (id : Text) : ℚ :=
  ((scores.find? fun entry => entry.1 = id).map Prod.snd).getD 0

/-! ### Queries -/

/-- Full-text search of SQLite: which memories an expression matches, and in which order
    `bm25` puts them, which may depend on the whole table. -/
structure FullText where
  isMatch : Text → MemoryRow → Bool
  ordered : Text → List MemoryRow → List MemoryRow
  perm : ∀ expression rows, (ordered expression rows).Perm (rows.filter (isMatch expression))

/-- What a search uses of its platform. -/
structure SearchPlatform where
  fullText : FullText
  lowerCase : LowerCase
  /-- `[\p\x7bL\x7d\p\x7bN\x7d_]` -/
  isWord : Char → Bool
  /-- `a.localeCompare(b) <= 0` -/
  localeLe : Text → Text → Bool

variable (platform : SearchPlatform)

/-- An expression for any of the words of a query, each as a quoted prefix. -/
def ftsQuery (query : Text) : Option Text :=
  let words := ((platform.lowerCase.toLowerCase query).splitOnP (!platform.isWord ·)).filter
    fun word => decide (1 < utf16Length word)
  let tokens := words.eraseDups
  if tokens = [] then none
  else
    let quoted := tokens.map fun token : Text =>
      '"' :: (token.flatMap fun c => if c = '"' then ['"', '"'] else [c]) ++ "\"*".toList
    some ((" OR " : Text).intercalate quoted)

structure SearchInput where
  query : Option Text
  limit : Option ℤ
  category : Option Text
  statuses : List MemoryStatus
  conversationId : Option Text
  includeSuppressedInConversation : Bool
  acknowledge : Option Bool

namespace SearchInput

variable (input : SearchInput)

def trimmedQuery : Text := trim (input.query.getD [])

/-- `Math.min(Math.max(input.limit ?? 5, 1), memoryLimits.searchLimit)` -/
def effectiveLimit : ℕ := (min (max (input.limit.getD 5) 1) 20).toNat

def wantedStatuses : List MemoryStatus :=
  if input.statuses = [] then [.active] else input.statuses

/-- `text?.trim() || null` -/
def trimmedOrNull (text : Option Text) : Option Text :=
  (text.map trim).filter fun text => !text.isEmpty

/-- The status and category a memory has to have. -/
def wants (row : MemoryRow) : Bool :=
  decide (row.status ∈ input.wantedStatuses) &&
    match trimmedOrNull input.category with
    | none => true
    | some category => decide (row.content.category = some category)

/-- The conversation whose suppressions apply. -/
def hidesFor : Option Text :=
  if input.includeSuppressedInConversation then none else trimmedOrNull input.conversationId

end SearchInput

/-- The memories that match a query and are wanted, in the order of `bm25`. -/
def lexicalMatches (input : SearchInput) (memories : Rows MemoryRow.id) : List MemoryRow :=
  match ftsQuery platform input.trimmedQuery with
  | none => []
  | some expression =>
    (platform.fullText.ordered expression memories.rows).filter input.wants

/-- `lexicalRanking`: the first of them. -/
def lexicalRanking (input : SearchInput) (memories : Rows MemoryRow.id) (limit : ℕ) : List Text :=
  ((lexicalMatches platform input memories).take limit).map MemoryRow.id

/-! ### The search -/

structure Suppression where
  conversationId : Text
  memoryId : Text
  expiresAt : ℕ
  deriving DecidableEq

/-- The primary key of `memory_suppressions`. -/
def Suppression.key (row : Suppression) : Text × Text := (row.conversationId, row.memoryId)

def suppressionTtlMs : ℕ := 6 * 60 * 60 * 1000

/-- What a search reads and writes. -/
structure SearchState where
  memories : Rows MemoryRow.id
  suppressions : Rows Suppression.key
  lastAccessedAt : Text → Option ℕ

/-- `pruneSuppressions` -/
def pruneSuppressions (now : ℕ) (s : SearchState) : SearchState :=
  { s with suppressions := s.suppressions.filter fun row => decide (now ≤ row.expiresAt) }

structure MemoryMatch where
  row : MemoryRow
  lastAccessedAt : Option ℕ
  score : ℚ
  lexicalRank : Option ℕ
  vectorRank : Option ℕ
  deriving DecidableEq

structure SearchResult where
  query : Text
  found : List MemoryMatch
  suppressedCount : ℕ
  hybrid : Bool

/-- `Number(x.toFixed(4))` -/
def toFixed4 (x : ℚ) : ℚ := ⌊x * 10000 + 1 / 2⌋ / 10000

/-- `rank === -1 ? null : rank + 1` -/
def rankIn (ids : List Text) (id : Text) : Option ℕ :=
  (ids.findIdx? (· = id)).map (· + 1)

/-- The ids that a search ranks, best first. -/
def rankIds (fused : List (Text × ℚ)) (ids : List Text) : List Text :=
  ids.mergeSort fun a b =>
    decide (scoreOf fused b < scoreOf fused a) ||
      (decide (scoreOf fused a = scoreOf fused b) && platform.localeLe a b)

/-- The suppressions that a search writes for what it returns. -/
def suppress (conversationId : Text) (expiresAt : ℕ) (ids : List Text)
    (suppressions : Rows Suppression.key) : Rows Suppression.key :=
  ids.foldl (fun table id =>
    table.upsert ⟨conversationId, id, expiresAt⟩ (fun row => { row with expiresAt := expiresAt })
      fun _ => rfl) suppressions

/-- The ids of the suppressions that apply. -/
def suppressedIds (input : SearchInput) (s : SearchState) : List Text :=
  match input.hidesFor with
  | none => []
  | some conversationId =>
    (s.suppressions.rows.filter fun row => decide (row.conversationId = conversationId)).map
      Suppression.memoryId

/-- `memorySearch`; `vectors` are the hits of the vector store, none without an embedding model. -/
def memorySearch (now : ℕ) (vectors : Option (List Text)) (input : SearchInput) (s : SearchState) :
    Except Thrown SearchResult × SearchState :=
  let query := input.trimmedQuery
  if query = [] then (.error (invalidArgs "\"query\" is required."), s)
  else
    let conversationId := SearchInput.trimmedOrNull input.conversationId
    if 64 < utf16Length (conversationId.getD []) then
      (.error (invalidArgs "\"conversation_id\" must be at most 64 characters."), s)
    else
      let limit := input.effectiveLimit
      let lexical := lexicalRanking platform input s.memories (limit * 4)
      let vectorIds := vectors.getD []
      let fused := reciprocalRankFusion [lexical, vectorIds]
      let ids := (fused.map Prod.fst).filter fun id => (s.memories.find? id).any input.wants
      let ranked := rankIds platform fused ids
      let pruned := pruneSuppressions now s
      let suppressed := suppressedIds input pruned
      let visible := ranked.filter fun id => decide (id ∉ suppressed)
      let top := visible.take limit
      let bestScore := (top.head?.map (scoreOf fused)).getD 1
      let found := top.filterMap fun id => (s.memories.find? id).map fun row =>
        { row := row, lastAccessedAt := s.lastAccessedAt id
          score := toFixed4 (scoreOf fused id / bestScore)
          lexicalRank := rankIn lexical id, vectorRank := rankIn vectorIds id : MemoryMatch }
      let suppressions := match conversationId with
        | none => pruned.suppressions
        | some conversationId =>
          if input.acknowledge = some false then pruned.suppressions
          else suppress conversationId (now + suppressionTtlMs) top pruned.suppressions
      (.ok { query := query, found := found, suppressedCount := ranked.length - visible.length,
             hybrid := vectors.isSome },
        { pruned with
          suppressions := suppressions
          lastAccessedAt := fun id => if id ∈ top then some now else s.lastAccessedAt id })

/-! ### One list alone -/

/-- The scores of one list, from a rank on. -/
def rankScores (k : ℕ) : (rank : ℕ) → List Text → List (Text × ℚ)
  | _, [] => []
  | rank, id :: ids => (id, 1 / ((k : ℚ) + rank + 1)) :: rankScores k (rank + 1) ids

theorem rankScores_ids (k rank : ℕ) (ids : List Text) :
    (rankScores k rank ids).map Prod.fst = ids := by
  induction ids generalizing rank with
  | nil => rfl
  | cons id ids ih => rw [rankScores, List.map_cons, ih]

theorem addRanks_nodup {k rank : ℕ} {ids : List Text} {scores : List (Text × ℚ)}
    (hnodup : ids.Nodup) (hnew : ∀ id ∈ ids, id ∉ scores.map Prod.fst) :
    addRanks k rank ids scores = scores ++ rankScores k rank ids := by
  induction ids generalizing rank scores with
  | nil => simp [addRanks, rankScores]
  | cons id ids ih =>
    obtain ⟨hid, hnodup⟩ := List.nodup_cons.mp hnodup
    rw [addRanks, addScore, if_neg (hnew id List.mem_cons_self), ih hnodup, rankScores,
      List.append_assoc, List.singleton_append]
    intro other hother
    rw [List.map_append, List.mem_append, not_or]
    refine ⟨hnew other (List.mem_cons_of_mem _ hother), ?_⟩
    rw [List.map_singleton, List.mem_singleton]
    rintro rfl
    exact hid hother

/-- **One list alone** keeps its order of first mentions, and so do its scores. -/
theorem fused_single {ids : List Text} (hnodup : ids.Nodup) :
    reciprocalRankFusion [ids, []] = rankScores rrfK 0 ids := by
  show addRanks rrfK 0 [] (addRanks rrfK 0 ids []) = _
  rw [addRanks_nodup hnodup (by simp), addRanks, List.nil_append]

theorem scoreOf_cons_self (id : Text) (score : ℚ) (scores : List (Text × ℚ)) :
    scoreOf ((id, score) :: scores) id = score := by
  simp [scoreOf]

theorem scoreOf_cons_of_ne {id other : Text} (h : other ≠ id) (score : ℚ)
    (scores : List (Text × ℚ)) : scoreOf ((other, score) :: scores) id = scoreOf scores id := by
  simp [scoreOf, h]

/-- The first score is the greatest. -/
theorem scoreOf_rankScores_le {k rank : ℕ} {ids : List Text} {id : Text} (h : id ∈ ids) :
    scoreOf (rankScores k rank ids) id ≤ 1 / ((k : ℚ) + rank + 1) := by
  induction ids generalizing rank with
  | nil => exact absurd h List.not_mem_nil
  | cons first ids ih =>
    rw [rankScores]
    by_cases heq : first = id
    · rw [heq, scoreOf_cons_self]
    · rw [scoreOf_cons_of_ne heq]
      have hmem : id ∈ ids := (List.mem_cons.mp h).resolve_left fun h => heq h.symm
      refine le_trans (ih hmem) (one_div_le_one_div_of_le (by positivity) ?_)
      push_cast
      linarith

theorem rankScores_pairwise {k rank : ℕ} {ids : List Text} (hnodup : ids.Nodup) :
    ids.Pairwise fun a b =>
      scoreOf (rankScores k rank ids) b < scoreOf (rankScores k rank ids) a := by
  induction ids generalizing rank with
  | nil => exact .nil
  | cons id ids ih =>
    obtain ⟨hid, hnodup⟩ := List.nodup_cons.mp hnodup
    have hne : ∀ {other}, other ∈ ids → id ≠ other := fun hother heq => hid (heq ▸ hother)
    have hrest : ids.Pairwise fun a b =>
        scoreOf (rankScores k (rank + 1) ids) b < scoreOf (rankScores k (rank + 1) ids) a :=
      ih hnodup
    rw [rankScores]
    refine List.pairwise_cons.mpr ⟨fun other hother => ?_, ?_⟩
    · rw [scoreOf_cons_self, scoreOf_cons_of_ne (hne hother)]
      refine lt_of_le_of_lt (scoreOf_rankScores_le hother) ?_
      refine one_div_lt_one_div_of_lt (by positivity) ?_
      push_cast
      linarith
    · refine hrest.imp_of_mem fun {a b} ha hb hlt => ?_
      rw [scoreOf_cons_of_ne (hne ha), scoreOf_cons_of_ne (hne hb)]
      exact hlt

/-- So ranking one list by its scores leaves it as it is. -/
theorem rankIds_single {ids : List Text} (hnodup : ids.Nodup) :
    rankIds platform (reciprocalRankFusion [ids, []]) ids = ids := by
  unfold rankIds
  rw [fused_single hnodup]
  have hpairwise : ids.Pairwise fun a b =>
      scoreOf (rankScores rrfK 0 ids) b < scoreOf (rankScores rrfK 0 ids) a :=
    rankScores_pairwise hnodup
  refine List.mergeSort_of_pairwise (hpairwise.imp fun {a b} hlt => ?_)
  simp [hlt]

/-! ### The matches of a lexical search -/

variable {platform}

theorem mem_lexicalMatches {input : SearchInput} {memories : Rows MemoryRow.id} {row : MemoryRow}
    (h : row ∈ lexicalMatches platform input memories) :
    row ∈ memories.rows ∧ input.wants row = true ∧
      ∃ expression, ftsQuery platform input.trimmedQuery = some expression ∧
        platform.fullText.isMatch expression row = true := by
  unfold lexicalMatches at h
  split at h
  · exact absurd h List.not_mem_nil
  rename_i expression hexpression
  obtain ⟨hmem, hwants⟩ := List.mem_filter.mp h
  obtain ⟨hrow, hmatch⟩ :=
    List.mem_filter.mp ((platform.fullText.perm expression memories.rows).mem_iff.mp hmem)
  exact ⟨hrow, hwants, expression, hexpression, hmatch⟩

theorem lexicalMatches_nodup (input : SearchInput) (memories : Rows MemoryRow.id) :
    ((lexicalMatches platform input memories).map MemoryRow.id).Nodup := by
  unfold lexicalMatches
  split
  · exact List.nodup_nil
  · rename_i expression _
    have hall : ((platform.fullText.ordered expression memories.rows).map MemoryRow.id).Nodup := by
      have hperm := (platform.fullText.perm expression memories.rows).map MemoryRow.id
      rw [hperm.nodup_iff]
      exact memories.nodup.sublist (List.filter_sublist.map _)
    exact hall.sublist (List.filter_sublist.map _)

/-- A search with a query and a conversation of bearable length returns. -/
theorem memorySearch_returns (platform : SearchPlatform) (now : ℕ) (vectors : Option (List Text))
    (input : SearchInput) (s : SearchState) (hquery : input.trimmedQuery ≠ [])
    (hconversation : utf16Length ((SearchInput.trimmedOrNull input.conversationId).getD []) ≤ 64) :
    ∃ result s', memorySearch platform now vectors input s = (.ok result, s') := by
  unfold memorySearch
  dsimp only
  rw [if_neg hquery, if_neg (Nat.not_lt.mpr hconversation)]
  exact ⟨_, _, rfl⟩

/-- Whether a memory is hidden from the search: the conversation has seen it, and that has not
    expired. -/
def Hidden (now : ℕ) (input : SearchInput) (s : SearchState) (row : MemoryRow) : Prop :=
  ∃ conversationId, input.hidesFor = some conversationId ∧
    ∃ suppression ∈ s.suppressions.rows, suppression.conversationId = conversationId ∧
      suppression.memoryId = row.id ∧ now ≤ suppression.expiresAt

theorem mem_suppressedIds {now : ℕ} {input : SearchInput} {s : SearchState} {row : MemoryRow} :
    row.id ∈ suppressedIds input (pruneSuppressions now s) ↔ Hidden now input s row := by
  unfold suppressedIds Hidden pruneSuppressions
  cases input.hidesFor with
  | none => simp
  | some conversationId =>
    simp only [List.mem_map, List.mem_filter, Rows.mem_filter, decide_eq_true_eq,
      Option.some.injEq, exists_eq_left']
    constructor
    · rintro ⟨suppression, ⟨⟨hmem, hnow⟩, hconv⟩, hid⟩
      exact ⟨suppression, hmem, hconv, hid, hnow⟩
    · rintro ⟨suppression, hmem, hconv, hid, hnow⟩
      exact ⟨suppression, ⟨⟨hmem, hnow⟩, hconv⟩, hid⟩

instance (now : ℕ) (input : SearchInput) (s : SearchState) (row : MemoryRow) :
    Decidable (Hidden now input s row) :=
  decidable_of_iff _ mem_suppressedIds

/-- The memories a search goes through: the first `4 * limit` matches, hidden or not. -/
def candidates (platform : SearchPlatform) (input : SearchInput) (s : SearchState) :
    List MemoryRow :=
  (lexicalMatches platform input s.memories).take (input.effectiveLimit * 4)

/-- **The matches of a lexical search**: the first that are not hidden among the candidates, in the
    order of their fused scores. -/
theorem memorySearch_matches {now : ℕ} {input : SearchInput} {s s' : SearchState}
    {result : SearchResult} (h : memorySearch platform now none input s = (.ok result, s')) :
    result.found.map MemoryMatch.row =
      ((candidates platform input s).filter fun row => decide (¬ Hidden now input s row)).take
        input.effectiveLimit := by
  unfold memorySearch at h
  dsimp only at h
  split at h
  · exact absurd h (by simp)
  split at h
  · exact absurd h (by simp)
  obtain rfl := Except.ok.inj (Prod.mk.inj h).1
  clear h
  have hrows : ∀ row ∈ candidates platform input s, row ∈ s.memories.rows ∧
      input.wants row = true := fun row hrow =>
    have hmatch := mem_lexicalMatches (List.mem_of_mem_take hrow)
    ⟨hmatch.1, hmatch.2.1⟩
  have hfind : ∀ row ∈ candidates platform input s, s.memories.find? row.id = some row :=
    fun row hrow => Rows.find?_eq_some.mpr ⟨(hrows row hrow).1, rfl⟩
  have hlexical : lexicalRanking platform input s.memories (input.effectiveLimit * 4) =
      (candidates platform input s).map MemoryRow.id := rfl
  have hnodup : ((candidates platform input s).map MemoryRow.id).Nodup :=
    (lexicalMatches_nodup input s.memories).sublist ((List.take_sublist _ _).map _)
  have hkept : (((candidates platform input s).map MemoryRow.id).filter fun id =>
      (s.memories.find? id).any input.wants) = (candidates platform input s).map MemoryRow.id := by
    refine List.filter_eq_self.mpr fun id hid => ?_
    obtain ⟨row, hrow, rfl⟩ := List.mem_map.mp hid
    rw [hfind row hrow, Option.any_some]
    exact (hrows row hrow).2
  have hvisible : ((candidates platform input s).map MemoryRow.id).filter
      (fun id => decide (id ∉ suppressedIds input (pruneSuppressions now s))) =
      ((candidates platform input s).filter fun row => decide (¬ Hidden now input s row)).map
        MemoryRow.id := by
    rw [List.filter_map]
    congr 1
    refine List.filter_congr fun row _ => ?_
    simp only [Function.comp, mem_suppressedIds]
  rw [hlexical, Option.getD_none, fused_single hnodup, rankScores_ids, hkept,
    ← fused_single hnodup, rankIds_single platform hnodup, hvisible, ← List.map_take]
  generalize hshown : ((candidates platform input s).filter fun row =>
    decide (¬ Hidden now input s row)).take input.effectiveLimit = shown
  have hsub : ∀ row ∈ shown, s.memories.find? row.id = some row := by
    intro row hrow
    rw [← hshown] at hrow
    exact hfind row (List.mem_of_mem_filter (List.mem_of_mem_take hrow))
  clear hshown
  rw [List.filterMap_map, List.map_filterMap]
  have hself : ∀ (rows : List MemoryRow) (again : MemoryRow → Option MemoryRow),
      (∀ row ∈ rows, again row = some row) → rows.filterMap again = rows := by
    intro rows again hall
    induction rows with
    | nil => rfl
    | cons row rows ih =>
      rw [List.filterMap_cons, hall row List.mem_cons_self]
      simp only
      rw [ih fun other hother => hall other (List.mem_cons_of_mem _ hother)]
  refine hself shown _ fun row hrow => ?_
  simp only [Function.comp, hsub row hrow, Option.map_some]

/-! ### How many it finds -/

/-- **What a lexical search returns.**  Distinct memories of the wanted status and category that
    match the query and are not hidden, in the order of their fused scores: as many as the limit
    allows of the candidates, which is as many as it allows of all matches when at most `3 * limit`
    matches are hidden. -/
structure Fills (platform : SearchPlatform) (now : ℕ) (input : SearchInput) (s : SearchState)
    (result : SearchResult) : Prop where
  distinct : (result.found.map fun m => m.row.id).Nodup
  wanted : ∀ m ∈ result.found, m.row ∈ s.memories.rows ∧ input.wants m.row = true
  matching : ∀ m ∈ result.found, ∃ expression, ftsQuery platform input.trimmedQuery = some expression ∧
    platform.fullText.isMatch expression m.row = true
  visible : ∀ m ∈ result.found, ¬ Hidden now input s m.row
  ordered : result.found.Pairwise fun a b =>
    let fused := reciprocalRankFusion
      [lexicalRanking platform input s.memories (input.effectiveLimit * 4), []]
    scoreOf fused b.row.id < scoreOf fused a.row.id
  count : result.found.length =
    min input.effectiveLimit
      ((candidates platform input s).filter fun row => decide (¬ Hidden now input s row)).length
  full : ((lexicalMatches platform input s.memories).filter fun row =>
      decide (Hidden now input s row)).length ≤ input.effectiveLimit * 3 →
    result.found.length =
      min input.effectiveLimit ((lexicalMatches platform input s.memories).filter fun row =>
        decide (¬ Hidden now input s row)).length

/-- Four times the limit, less three times the limit, is the limit. -/
theorem min_filter_take {α : Type} (rows : List α) (hide : α → Bool) (limit : ℕ)
    (h : (rows.filter hide).length ≤ limit * 3) :
    min limit ((rows.take (limit * 4)).filter fun a => !hide a).length =
      min limit (rows.filter fun a => !hide a).length := by
  have hsplit : ∀ l : List α, (l.filter hide).length + (l.filter fun a => !hide a).length =
      l.length := by
    intro l
    induction l with
    | nil => rfl
    | cons a l ih =>
      cases ha : hide a
      · simp [ha]
        omega
      · simp [ha]
        omega
  by_cases hshort : rows.length ≤ limit * 4
  · rw [List.take_of_length_le hshort]
  · -- the candidates fill their four limits, and hide at most three of them
    have htake : (rows.take (limit * 4)).length = limit * 4 :=
      List.length_take_of_le (Nat.le_of_not_le hshort)
    have hhidden : ((rows.take (limit * 4)).filter hide).length ≤ limit * 3 :=
      le_trans ((List.take_sublist _ _).filter hide).length_le h
    have hshown : ((rows.take (limit * 4)).filter fun a => !hide a).length ≤
        (rows.filter fun a => !hide a).length :=
      ((List.take_sublist _ _).filter _).length_le
    have := hsplit (rows.take (limit * 4))
    omega

/-- **A lexical search fills its limit** from its candidates. -/
theorem search_fills {now : ℕ} {input : SearchInput} {s s' : SearchState} {result : SearchResult}
    (h : memorySearch platform now none input s = (.ok result, s')) :
    Fills platform now input s result := by
  have hrows := memorySearch_matches h
  have hlength : result.found.length = min input.effectiveLimit
      ((candidates platform input s).filter fun row => decide (¬ Hidden now input s row)).length := by
    rw [← List.length_map (f := MemoryMatch.row), hrows, List.length_take]
  have hmem : ∀ m ∈ result.found, m.row ∈ candidates platform input s ∧
      ¬ Hidden now input s m.row := by
    intro m hm
    have hrow : m.row ∈ result.found.map MemoryMatch.row := List.mem_map_of_mem hm
    rw [hrows] at hrow
    obtain ⟨hcandidate, hvisible⟩ := List.mem_filter.mp (List.mem_of_mem_take hrow)
    exact ⟨hcandidate, of_decide_eq_true hvisible⟩
  have hsub : (result.found.map MemoryMatch.row).Sublist (candidates platform input s) := by
    rw [hrows]
    exact (List.take_sublist _ _).trans List.filter_sublist
  have hnodup : ((candidates platform input s).map MemoryRow.id).Nodup :=
    (lexicalMatches_nodup input s.memories).sublist ((List.take_sublist _ _).map _)
  have hfoundIds : (result.found.map fun m => m.row.id).Sublist
      ((candidates platform input s).map MemoryRow.id) := by
    have := hsub.map MemoryRow.id
    rwa [List.map_map] at this
  refine ⟨hnodup.sublist hfoundIds, ?_, ?_, fun m hm => (hmem m hm).2, ?_, hlength, ?_⟩
  · intro m hm
    have hmatch := mem_lexicalMatches (List.mem_of_mem_take (hmem m hm).1)
    exact ⟨hmatch.1, hmatch.2.1⟩
  · intro m hm
    exact (mem_lexicalMatches (List.mem_of_mem_take (hmem m hm).1)).2.2
  · have hlexical : lexicalRanking platform input s.memories (input.effectiveLimit * 4) =
        (candidates platform input s).map MemoryRow.id := rfl
    have hscores : ((candidates platform input s).map MemoryRow.id).Pairwise fun a b =>
        scoreOf (rankScores rrfK 0 ((candidates platform input s).map MemoryRow.id)) b <
          scoreOf (rankScores rrfK 0 ((candidates platform input s).map MemoryRow.id)) a :=
      rankScores_pairwise hnodup
    have hpairwise := hscores.sublist hfoundIds
    rw [List.pairwise_map] at hpairwise
    dsimp only
    rw [hlexical, fused_single hnodup]
    exact hpairwise
  · intro hfew
    rw [hlength]
    have hfill := min_filter_take (lexicalMatches platform input s.memories)
      (fun row => decide (Hidden now input s row)) input.effectiveLimit hfew
    simpa only [decide_not, candidates] using hfill

/-! ### Hidden memories in front -/

/-- Full-text search for the memories whose subject is the one word `tea`. -/
def teaSearch : FullText where
  isMatch := fun expression row =>
    decide (expression = "\"tea\"*") && decide (row.content.subject = "tea")
  ordered := fun expression rows => rows.filter fun row =>
    decide (expression = "\"tea\"*") && decide (row.content.subject = "tea")
  perm := fun _ _ => .refl _

def teaPlatform : SearchPlatform where
  fullText := teaSearch
  lowerCase := asciiLowerCase
  isWord := fun c => isLetter c || isDigit c || c == '_'
  localeLe := fun a b => decide (a ≤ b)

def teaMemory (id : Text) : MemoryRow where
  id := id
  status := .active
  content := ⟨"tea", "A kind of tea.", [], none, [], [], none⟩
  embeddedModel := none
  createdAt := 0
  updatedAt := 0
  deletedAt := none

/-- Five memories on tea, of which a conversation has seen the first four. -/
def seenTea : SearchState where
  memories := ⟨[teaMemory "m1", teaMemory "m2", teaMemory "m3", teaMemory "m4", teaMemory "m5"],
    by decide⟩
  suppressions := ⟨[⟨"c", "m1", 9⟩, ⟨"c", "m2", 9⟩, ⟨"c", "m3", 9⟩, ⟨"c", "m4", 9⟩], by decide⟩
  lastAccessedAt := fun _ => none

def teaInput (limit : ℤ) : SearchInput where
  query := some "tea"
  limit := some limit
  category := none
  statuses := []
  conversationId := some "c"
  includeSuppressedInConversation := false
  acknowledge := none

/-- **Hidden memories starve a search.**  With the limit 1, the one match that is not hidden is not
    among the candidates. -/
theorem starved :
    (∃ result s', memorySearch teaPlatform 5 none (teaInput 1) seenTea = (.ok result, s') ∧
      result.found = []) ∧
      ((lexicalMatches teaPlatform (teaInput 1) seenTea.memories).filter fun row =>
        decide (¬ Hidden 5 (teaInput 1) seenTea row)).map MemoryRow.id = [("m5" : Text)] := by
  have hcandidates : ((candidates teaPlatform (teaInput 1) seenTea).filter fun row =>
      decide (¬ Hidden 5 (teaInput 1) seenTea row)).take (teaInput 1).effectiveLimit = [] := by
    decide +kernel
  obtain ⟨result, s', hsearch⟩ :=
    memorySearch_returns teaPlatform 5 none (teaInput 1) seenTea (by decide) (by decide)
  refine ⟨⟨result, s', hsearch, ?_⟩, by decide +kernel⟩
  exact List.map_eq_nil_iff.mp ((memorySearch_matches hsearch).trans hcandidates)

/-- With the limit 2 it is. -/
theorem search_fills_tea :
    ∃ result s', memorySearch teaPlatform 5 none (teaInput 2) seenTea = (.ok result, s') ∧
      (result.found.map fun m => m.row.id) = [("m5" : Text)] ∧
      Fills teaPlatform 5 (teaInput 2) seenTea result := by
  have hcandidates : ((candidates teaPlatform (teaInput 2) seenTea).filter fun row =>
      decide (¬ Hidden 5 (teaInput 2) seenTea row)).take (teaInput 2).effectiveLimit =
        [teaMemory "m5"] := by
    decide +kernel
  obtain ⟨result, s', hsearch⟩ :=
    memorySearch_returns teaPlatform 5 none (teaInput 2) seenTea (by decide) (by decide)
  refine ⟨result, s', hsearch, ?_, search_fills hsearch⟩
  have hrows := (memorySearch_matches hsearch).trans hcandidates
  have hids := congrArg (List.map MemoryRow.id) hrows
  rwa [List.map_map] at hids

end KodyCelld.Memory
