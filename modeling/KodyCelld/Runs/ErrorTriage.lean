import KodyCelld.Runs.RunStore

namespace KodyCelld.Runs

open KodyCelld.Lib

/-!
# Error runs triaged in bulk (`runs/triage-store.ts`)

One call marks at most `limit` of the runs that match; a caller repeats it while there are more.

* `bulk`, `repeatBulk` — one call, and the calls of such a caller;
* `matching_bulk` — what still matches after a call are the runs it did not return;
* `repeatBulk_exhausts` — the calls end, and have marked every matching run once and nothing else.

The count of written rows is left out.
-/

/-! ### The code -/

/-- `'open'` is a keyword here. -/
inductive ErrorTriageFilter where
  | opened | ignored | resolved | all

def errorTriageWhere : ErrorTriageFilter → RunRecord → Bool
  | .opened, row => decide (row.status = .error) && row.errorTriage.isNone
  | .ignored, row => decide (row.errorTriage = some .ignored)
  | .resolved, row => decide (row.errorTriage = some .resolved)
  | .all, _ => true

structure RunTriageBulkFilter where
  errorTriage : ErrorTriageFilter
  kind : Option RunKind
  packageName : Option Text
  jobId : Option Text
  errorName : Option Text
  errorMessage : Option Text

/-- What `parseRunTriageBulk` returns, with the author; `triage` is `none` to open runs again. -/
structure RunTriageBulkInput where
  runIds : Option (List Text)
  filter : Option RunTriageBulkFilter
  triage : Option RunErrorTriage
  note : Option Text
  limit : ℕ
  limit_pos : 0 < limit
  dryRun : Bool
  author : Text

/-- `column = ?`, where the filter has the field. -/
def asks {α : Type} [DecidableEq α] (wanted column : Option α) : Bool :=
  wanted.all fun value => decide (column = some value)

/-- The `WHERE` of the bulk update. -/
def bulkWhere (input : RunTriageBulkInput) (row : RunRecord) : Bool :=
  decide (row.status = .error) &&
    -- `IS NOT NULL`, or `IS NULL OR != ?`
    decide (row.errorTriage ≠ input.triage) &&
    (input.runIds.all fun ids => decide (row.id ∈ ids)) &&
    input.filter.all fun f =>
      errorTriageWhere f.errorTriage row && asks f.kind (some row.kind) &&
        asks f.packageName row.packageName && asks f.jobId row.jobId &&
        asks f.errorName (row.error.map RunError.name) &&
        asks f.errorMessage (row.error.map RunError.message)

/-- `ORDER BY created_at DESC, id DESC` -/
def latestFirst (a b : RunRecord) : Bool :=
  decide (b.createdAt < a.createdAt ∨ (a.createdAt = b.createdAt ∧ b.id ≤ a.id))

/-- What `apply` sets. -/
def RunTriageBulkInput.update (input : RunTriageBulkInput) (now : ℕ) : Triage :=
  match input.triage with
  | none => ⟨none, some none, none, none⟩
  | some t =>
    let cleared (note : Text) : Option Text := if trim note = [] then none else some (trim note)
    ⟨some t, input.note.map cleared, some now, some input.author⟩

structure RunTriageBulkResult where
  matchedRunIds : List Text
  hasMore : Bool

/-- The rows that match, in the order of the query. -/
def matching (input : RunTriageBulkInput) (s : RunTables) : List RunRecord :=
  (s.runs.rows.filter (bulkWhere input)).mergeSort latestFirst

def bulk (now : ℕ) (input : RunTriageBulkInput) (s : RunTables) : RunTriageBulkResult × RunTables :=
  let ids := ((matching input s).take (input.limit + 1)).map RunRecord.id
  let matchedRunIds := ids.take input.limit
  (⟨matchedRunIds, decide (input.limit < ids.length)⟩,
    if input.dryRun = true ∨ matchedRunIds = [] then s
    else applyTriage matchedRunIds (input.update now) s)

/-- The call repeated while `hasMore`, at any clock readings: the ids of each call, and the tables
    after the last; `none` where that takes more calls than allowed. -/
def repeatBulk (clock : ℕ → ℕ) (input : RunTriageBulkInput) :
    (calls : ℕ) → RunTables → Option (List (List Text) × RunTables)
  | 0, _ => none
  | calls + 1, s =>
    let (result, after) := bulk (clock calls) input s
    if result.hasMore then
      (repeatBulk clock input calls after).map fun r => (result.matchedRunIds :: r.1, r.2)
    else some ([result.matchedRunIds], after)

/-! ### One call -/

variable {input : RunTriageBulkInput} {s : RunTables} {now : ℕ}

/-- A row after the calls: marked at some time if it matched, and as it was otherwise. -/
def MarkedOnce (input : RunTriageBulkInput) (row after : RunRecord) : Prop :=
  if bulkWhere input row then ∃ now, after = (triageChange (input.update now)).set row
  else after = row

/-- A marked row does not match any more. -/
theorem bulkWhere_marked (now : ℕ) (row : RunRecord) :
    bulkWhere input ((triageChange (input.update now)).set row) = false := by
  have hset : ((triageChange (input.update now)).set row).errorTriage = input.triage := by
    unfold RunTriageBulkInput.update
    cases input.triage <;> rfl
  unfold bulkWhere
  rw [hset]
  simp

theorem mem_matching {row : RunRecord} :
    row ∈ matching input s ↔ row ∈ s.runs.rows ∧ bulkWhere input row = true := by
  unfold matching
  rw [List.mem_mergeSort, List.mem_filter]

/-- The rows whose ids a call returns. -/
def page (input : RunTriageBulkInput) (s : RunTables) : List RunRecord :=
  (matching input s).take input.limit

theorem page_append : page input s ++ (matching input s).drop input.limit = matching input s :=
  List.take_append_drop ..

theorem mem_page {row : RunRecord} (hrow : row ∈ s.runs.rows)
    (hid : row.id ∈ (page input s).map RunRecord.id) : row ∈ page input s := by
  obtain ⟨other, hother, hsame⟩ := List.mem_map.mp hid
  have hmem := (mem_matching.mp (List.mem_of_mem_take hother)).1
  obtain rfl := List.inj_on_of_nodup_map s.runs.nodup hmem hrow hsame
  exact hother

/-- **One call** returns the first of the runs that match, and says whether there are more. -/
theorem bulk_result : (bulk now input s).1 =
    ⟨(page input s).map RunRecord.id, decide (input.limit < (matching input s).length)⟩ := by
  have htake : (((matching input s).take (input.limit + 1)).map RunRecord.id).take input.limit =
      (page input s).map RunRecord.id := by
    rw [← List.map_take, List.take_take, Nat.min_eq_left (Nat.le_succ _)]
    rfl
  have hmore : (input.limit < (((matching input s).take (input.limit + 1)).map RunRecord.id).length) ↔
      input.limit < (matching input s).length := by
    rw [List.length_map, List.length_take]
    omega
  unfold bulk
  dsimp only
  rw [htake, decide_eq_decide.mpr hmore]

/-- It marks their rows and leaves the others. -/
theorem bulk_rows (hdry : input.dryRun = false) : (bulk now input s).2.runs.rows =
    s.runs.rows.map fun row =>
      if row ∈ page input s then (triageChange (input.update now)).set row else row := by
  have hids : (bulk now input s).1.matchedRunIds = (page input s).map RunRecord.id := by
    rw [bulk_result]
  show (if input.dryRun = true ∨ (bulk now input s).1.matchedRunIds = [] then s
    else applyTriage (bulk now input s).1.matchedRunIds (input.update now) s).runs.rows = _
  rw [hids]
  split
  · rename_i hnone
    have hempty : page input s = [] := List.map_eq_nil_iff.mp (hnone.resolve_left (by simp [hdry]))
    simp [hempty]
  · refine List.map_congr_left fun row hrow => ?_
    show (if decide (row.id ∈ _) = true then _ else row) = _
    simp only [decide_eq_true_eq]
    exact if_congr ⟨mem_page hrow, List.mem_map_of_mem⟩ rfl rfl

/-- **What still matches** after a call are the runs it did not return. -/
theorem matching_bulk (hdry : input.dryRun = false) :
    (matching input (bulk now input s).2).Perm ((matching input s).drop input.limit) := by
  have hnodup : (page input s ++ (matching input s).drop input.limit).Nodup := by
    rw [page_append]
    exact ((List.mergeSort_perm _ _).nodup_iff).mpr (s.runs.nodup.of_map _ |>.filter _)
  have hleft : (bulk now input s).2.runs.rows.filter (bulkWhere input) =
      (s.runs.rows.filter (bulkWhere input)).filter fun row => decide (row ∉ page input s) := by
    rw [bulk_rows hdry, List.filter_map, List.filter_filter]
    have hstill : (bulkWhere input ∘ fun row => if row ∈ page input s then
        (triageChange (input.update now)).set row else row) =
          fun row => decide (row ∉ page input s) && bulkWhere input row := by
      funext row
      by_cases hpage : row ∈ page input s
      · simp [hpage, bulkWhere_marked]
      · simp [hpage]
    rw [hstill]
    refine (List.map_congr_left fun row hrow => ?_).trans (List.map_id _)
    have hpage : row ∉ page input s :=
      of_decide_eq_true (Bool.and_eq_true_iff.mp (List.mem_filter.mp hrow).2).1
    rw [if_neg hpage]
    rfl
  have hdrop : (matching input s).filter (fun row => decide (row ∉ page input s)) =
      (matching input s).drop input.limit := by
    conv_lhs => rw [← page_append, List.filter_append]
    rw [List.filter_eq_nil_iff.mpr (by simp), List.nil_append, List.filter_eq_self]
    intro row hrow
    exact decide_eq_true fun hpage => List.disjoint_of_nodup_append hnodup hpage hrow
  refine (List.mergeSort_perm _ _).trans ?_
  rw [hleft, ← hdrop]
  exact ((List.mergeSort_perm _ _).filter _).symm

/-! ### Repeated calls -/

/-- A call and those after it mark a row once: the call's page does not match again. -/
theorem markedOnce_bulk (hdry : input.dryRun = false) {after : List RunRecord}
    (h : List.Forall₂ (MarkedOnce input) (bulk now input s).2.runs.rows after) :
    List.Forall₂ (MarkedOnce input) s.runs.rows after := by
  rw [bulk_rows hdry, List.forall₂_map_left_iff] at h
  refine h.imp fun row row' hrow => ?_
  unfold MarkedOnce at hrow ⊢
  split at hrow
  · rename_i hpage
    rw [bulkWhere_marked, if_neg Bool.false_ne_true] at hrow
    rw [if_pos (mem_matching.mp (List.mem_of_mem_take hpage)).2]
    exact ⟨_, hrow⟩
  · exact hrow

/-- **The calls end**, at the latest one after as many as there are matching runs.  Together they have
    returned each run that matched at the start once, and marked these rows and no other. -/
theorem repeatBulk_exhausts (hdry : input.dryRun = false) (clock : ℕ → ℕ) (calls : ℕ)
    (hcalls : (matching input s).length < calls) :
    ∃ pages after, repeatBulk clock input calls s = some (pages, after) ∧
      pages.flatten.Perm ((matching input s).map RunRecord.id) ∧
      List.Forall₂ (MarkedOnce input) s.runs.rows after.runs.rows := by
  induction calls generalizing s with
  | zero => exact absurd hcalls (Nat.not_lt_zero _)
  | succ calls ih =>
    have hrest := @matching_bulk input s (clock calls) hdry
    rw [repeatBulk]
    dsimp only
    rw [bulk_result]
    dsimp only
    by_cases hmore : input.limit < (matching input s).length
    · have hlength := hrest.length_eq
      rw [List.length_drop] at hlength
      have hpos := input.limit_pos
      obtain ⟨pages, after, hcall, hpages, hmarked⟩ := ih (s := (bulk (clock calls) input s).2) (by omega)
      rw [if_pos (decide_eq_true hmore), hcall]
      refine ⟨_, _, rfl, ?_, markedOnce_bulk hdry hmarked⟩
      rw [List.flatten_cons]
      refine (hpages.trans (hrest.map _)).append_left _ |>.trans ?_
      rw [← List.map_append, page_append]
    · rw [if_neg (by simp [hmore])]
      refine ⟨_, _, rfl, ?_, @markedOnce_bulk input s (clock calls) hdry _ ?_⟩
      · rw [page, List.take_of_length_le (Nat.not_lt.mp hmore)]
        simp
      · -- nothing matches any more
        rw [List.drop_eq_nil_of_le (Nat.not_lt.mp hmore), List.perm_nil] at hrest
        refine List.forall₂_same.mpr fun row hrow => ?_
        unfold MarkedOnce
        rw [if_neg fun hmatch => ?_]
        have hmem := mem_matching.mpr ⟨hrow, hmatch⟩
        rw [hrest] at hmem
        exact List.not_mem_nil hmem

def failedRun (id : Text) : RunRecord :=
  { startedRow id 0 ⟨.execute, none, none, none⟩ with status := .error }

/-- Open errors of ad hoc runs are resolved one by one. -/
def resolveOneByOne : RunTriageBulkInput where
  runIds := none
  filter := some ⟨.opened, some .execute, none, none, none, none⟩
  triage := some .resolved
  note := none
  limit := 1
  limit_pos := by decide
  dryRun := false
  author := "user"

/-- Two failed runs are resolved in at most three calls. -/
theorem repeatBulk_exhausts_oneByOne :
    let s : RunTables := ⟨⟨[failedRun "a", failedRun "b"], by decide⟩, .empty⟩
    ∃ pages after, repeatBulk id resolveOneByOne 3 s = some (pages, after) ∧
      pages.flatten.Perm ((matching resolveOneByOne s).map RunRecord.id) ∧
      List.Forall₂ (MarkedOnce resolveOneByOne) s.runs.rows after.runs.rows :=
  repeatBulk_exhausts rfl id 3 ((List.length_mergeSort _).trans_lt (by decide))

end KodyCelld.Runs
