import Mathlib

namespace KodyCelld.Lib

/-!
# Keyed rows and statements that commit one by one

* `Rows key` — the rows of a table in insertion order, with its primary key as an invariant;
* `runScript` — a sequence of statements outside a transaction: what ran before a failure stays.

* `find?_filter`, `find?_map`, `find?_mapAt`, `find?_insert?`, `find?_upsert` — the row of a key
  after each operation; `mem_upsert` — the rows after an upsert;
* `sum_upsert`, `length_upsert`, `sum_filter_le` — sums over a column after each operation;
* `newest_dropped` — a row that `keepNewest` drops has that many rows at least as new;
* `runScript_eq_ok`, `runScript_eq_error`, `runScript_frame` — when a script runs to its end, with
  what error it fails, and what it leaves alone.
-/

/-! ### Tables with a primary key -/

/-- The rows of a table; no two share a key. -/
structure Rows {ρ κ : Type} (key : ρ → κ) where
  rows : List ρ
  nodup : (rows.map key).Nodup

namespace Rows

variable {ρ κ : Type} {key : ρ → κ} [DecidableEq κ]

/-- A table without rows. -/
def empty : Rows key := ⟨[], List.nodup_nil⟩

/-- `DELETE … WHERE NOT keep` -/
def filter (table : Rows key) (keep : ρ → Bool) : Rows key :=
  ⟨table.rows.filter keep, table.nodup.sublist (List.filter_sublist.map _)⟩

/-- `UPDATE … SET …` of columns outside the key. -/
def map (table : Rows key) (change : ρ → ρ) (hkey : ∀ row, key (change row) = key row) :
    Rows key :=
  ⟨table.rows.map change, by
    rw [List.map_map, show key ∘ change = key from funext hkey]
    exact table.nodup⟩

/-- `SELECT … WHERE key = ?` -/
def find? (table : Rows key) (k : κ) : Option ρ := table.rows.find? fun row => key row = k

/-- `INSERT … ON CONFLICT DO UPDATE SET …` -/
def upsert (table : Rows key) (new : ρ) (change : ρ → ρ) (hkey : ∀ row, key (change row) = key row) :
    Rows key :=
  if h : key new ∈ table.rows.map key then
    table.map (fun row => if key row = key new then change row else row) fun row => by
      split
      · exact hkey row
      · rfl
  else ⟨table.rows ++ [new], by
    rw [List.map_append, List.nodup_append]
    refine ⟨table.nodup, List.nodup_singleton _, ?_⟩
    intro a ha b hb
    rw [List.map_singleton, List.mem_singleton] at hb
    exact fun hab => h (hb ▸ hab ▸ ha)⟩

/-- A plain `INSERT`; `none` where it would break the key. -/
def insert? (table : Rows key) (new : ρ) : Option (Rows key) :=
  if h : key new ∈ table.rows.map key then none
  else some ⟨table.rows ++ [new], by
    rw [List.map_append, List.nodup_append]
    refine ⟨table.nodup, List.nodup_singleton _, ?_⟩
    intro a ha b hb
    rw [List.map_singleton, List.mem_singleton] at hb
    exact fun hab => h (hb ▸ hab ▸ ha)⟩

/-- A listed row is the row of its key. -/
theorem find?_eq_some {table : Rows key} {k : κ} {row : ρ} :
    table.find? k = some row ↔ row ∈ table.rows ∧ key row = k := by
  unfold find?
  constructor
  · intro h
    exact ⟨List.mem_of_find?_eq_some h, by simpa using List.find?_some h⟩
  · rintro ⟨hrow, rfl⟩
    have hsome : (table.rows.find? fun r => key r = key row).isSome := by
      rw [List.find?_isSome]
      exact ⟨row, hrow, by simp⟩
    obtain ⟨found, hfound⟩ := Option.isSome_iff_exists.mp hsome
    have hkey : key found = key row := by simpa using List.find?_some hfound
    rw [hfound, List.inj_on_of_nodup_map table.nodup (List.mem_of_find?_eq_some hfound) hrow hkey]

omit [DecidableEq κ] in
@[simp] theorem mem_filter {table : Rows key} {keep : ρ → Bool} {row : ρ} :
    row ∈ (table.filter keep).rows ↔ row ∈ table.rows ∧ keep row = true :=
  List.mem_filter

omit [DecidableEq κ] in
@[simp] theorem mem_map {table : Rows key} {change : ρ → ρ}
    {hkey : ∀ row, key (change row) = key row} {row : ρ} :
    row ∈ (table.map change hkey).rows ↔ ∃ old ∈ table.rows, change old = row :=
  List.mem_map

theorem find?_filter (table : Rows key) (keep : ρ → Bool) (k : κ) :
    (table.filter keep).find? k = (table.find? k).filter keep := by
  refine Option.ext fun row => ?_
  rw [find?_eq_some, mem_filter, Option.filter_eq_some_iff, find?_eq_some]
  tauto

theorem find?_map (table : Rows key) (change : ρ → ρ) (hkey : ∀ row, key (change row) = key row)
    (k : κ) : (table.map change hkey).find? k = (table.find? k).map change := by
  refine Option.ext fun row => ?_
  rw [find?_eq_some, mem_map, Option.map_eq_some_iff]
  constructor
  · rintro ⟨⟨old, hold, rfl⟩, rfl⟩
    exact ⟨old, find?_eq_some.mpr ⟨hold, (hkey old).symm⟩, rfl⟩
  · rintro ⟨old, hold, rfl⟩
    obtain ⟨hmem, rfl⟩ := find?_eq_some.mp hold
    exact ⟨⟨old, hmem, rfl⟩, hkey old⟩

/-- The row of a key after `UPDATE … SET … WHERE key = ?`. -/
theorem find?_mapAt (table : Rows key) (k' : κ) (change : ρ → ρ)
    (hkey : ∀ row, key (if key row = k' then change row else row) = key row) (k : κ) :
    (table.map (fun row => if key row = k' then change row else row) hkey).find? k =
      if k = k' then (table.find? k).map change else table.find? k := by
  rw [find?_map]
  cases hfind : table.find? k with
  | none => rw [Option.map_none, Option.map_none, ite_self]
  | some row =>
    have hrow : key row = k := (find?_eq_some.mp hfind).2
    rw [Option.map_some, Option.map_some, hrow]
    split
    · rfl
    · rfl

/-- What an `INSERT` that succeeds has done. -/
theorem mem_insert? {table table' : Rows key} {new : ρ} (h : table.insert? new = some table')
    {row : ρ} : row ∈ table'.rows ↔ row ∈ table.rows ∨ row = new := by
  unfold insert? at h
  split at h
  · exact absurd h (by simp)
  rw [← Option.some.inj h]
  simp

theorem find?_insert? {table table' : Rows key} {new : ρ} (h : table.insert? new = some table')
    (k : κ) : table'.find? k = if key new = k then some new else table.find? k := by
  have hmem := fun row => @mem_insert? ρ κ key _ table table' new h row
  have hnew : key new ∉ table.rows.map key := by
    unfold insert? at h
    split at h
    · exact absurd h (by simp)
    · assumption
  split
  · rename_i hk
    exact find?_eq_some.mpr ⟨(hmem new).mpr (.inr rfl), hk⟩
  · rename_i hk
    refine Option.ext fun row => ?_
    rw [find?_eq_some, find?_eq_some, hmem]
    constructor
    · rintro ⟨hrow | rfl, hkey⟩
      · exact ⟨hrow, hkey⟩
      · exact absurd hkey hk
    · exact fun hrow => ⟨.inl hrow.1, hrow.2⟩

/-- A key that no row has can be inserted. -/
theorem exists_insert? {table : Rows key} {new : ρ} (h : table.find? (key new) = none) :
    ∃ table', table.insert? new = some table' := by
  unfold insert?
  split
  · rename_i hmem
    obtain ⟨row, hrow, hkey⟩ := List.mem_map.mp hmem
    rw [find?_eq_some.mpr ⟨hrow, hkey⟩] at h
    exact absurd h (by simp)
  · exact ⟨_, rfl⟩

theorem insert?_ne_none {table : Rows key} {new : ρ} (h : table.find? (key new) = none) :
    table.insert? new ≠ none := by
  obtain ⟨table', heq⟩ := exists_insert? h
  rw [heq]
  simp

/-- After an upsert the table has a row that is new or changed. -/
theorem exists_mem_upsert (table : Rows key) (new : ρ) (change : ρ → ρ)
    (hkey : ∀ row, key (change row) = key row) :
    new ∈ (table.upsert new change hkey).rows ∨
      ∃ row ∈ table.rows, change row ∈ (table.upsert new change hkey).rows := by
  unfold upsert
  split
  · rename_i h
    obtain ⟨row, hrow, hk⟩ := List.mem_map.mp h
    refine .inr ⟨row, hrow, List.mem_map.mpr ⟨row, hrow, ?_⟩⟩
    rw [if_pos hk]
  · exact .inl (List.mem_append_right _ (List.mem_singleton_self _))

/-- A row after an upsert was there, was changed, or is new. -/
theorem mem_upsert {table : Rows key} {new : ρ} {change : ρ → ρ}
    {hkey : ∀ row, key (change row) = key row} {row : ρ}
    (h : row ∈ (table.upsert new change hkey).rows) :
    row = new ∨ ∃ old ∈ table.rows, row = old ∨ row = change old := by
  unfold upsert at h
  split at h
  · obtain ⟨old, hold, heq⟩ := mem_map.mp h
    right
    refine ⟨old, hold, ?_⟩
    split at heq
    · exact .inr heq.symm
    · exact .inl heq.symm
  · rcases List.mem_append.mp h with hold | hnew
    · exact .inr ⟨row, hold, .inl rfl⟩
    · exact .inl (List.mem_singleton.mp hnew)

/-- The row of a key after an upsert. -/
theorem find?_upsert (table : Rows key) (new : ρ) (change : ρ → ρ)
    (hkey : ∀ row, key (change row) = key row) (k : κ) :
    (table.upsert new change hkey).find? k =
      if key new = k then some ((table.find? k).elim new change) else table.find? k := by
  unfold upsert
  split
  · rename_i hmem
    rw [find?_map]
    cases hfind : table.find? k with
    | none =>
      rw [Option.map_none, if_neg]
      rintro rfl
      obtain ⟨row, hrow, hk⟩ := List.mem_map.mp hmem
      exact absurd (hfind.symm.trans (find?_eq_some.mpr ⟨hrow, hk⟩)) (by simp)
    | some row =>
      obtain ⟨-, rfl⟩ := find?_eq_some.mp hfind
      rw [Option.map_some]
      by_cases hk : key row = key new
      · rw [if_pos hk, if_pos hk.symm]
        rfl
      · rw [if_neg hk, if_neg (Ne.symm hk)]
  · rename_i hmem
    show (table.rows ++ [new]).find? (fun row => key row = k) = _
    rw [List.find?_append]
    by_cases hk : key new = k
    · have hnone : table.find? k = none := by
        refine List.find?_eq_none.mpr fun row hrow hrowKey => hmem ?_
        rw [hk, ← of_decide_eq_true hrowKey]
        exact List.mem_map_of_mem hrow
      rw [if_pos hk, hnone, show table.rows.find? (fun row => key row = k) = none from hnone]
      simp [hk]
    · rw [if_neg hk]
      simp [hk, find?]

/-- A row after an upsert has the written key, or was there under another one. -/
theorem mem_upsert_at {table : Rows key} {new : ρ} {change : ρ → ρ}
    (hkey : ∀ row, key (change row) = key row) {row : ρ}
    (h : row ∈ (table.upsert new change hkey).rows) :
    (key row = key new ∧ row = (table.find? (key new)).elim new change) ∨
      (key row ≠ key new ∧ row ∈ table.rows) := by
  have hfind : (table.upsert new change hkey).find? (key row) = some row := find?_eq_some.mpr ⟨h, rfl⟩
  rw [find?_upsert] at hfind
  split at hfind
  · rename_i hk
    rw [← hk] at hfind
    exact .inl ⟨hk.symm, (Option.some.inj hfind).symm⟩
  · rename_i hk
    exact .inr ⟨Ne.symm hk, (find?_eq_some.mp hfind).1⟩

/-! ### Sums over a column -/

/-- Where no row has a key, a change at that key changes nothing. -/
theorem map_at_of_not_mem {l : List ρ} {k : κ} (h : k ∉ l.map key)
    (change : ρ → ρ) : (l.map fun row => if key row = k then change row else row) = l := by
  have hsame : ∀ row ∈ l, (if key row = k then change row else row) = row := by
    intro row hrow
    apply if_neg
    intro hk
    exact h (List.mem_map.mpr ⟨row, hrow, hk⟩)
  exact (List.map_congr_left hsame).trans (List.map_id' l)

/-- The sum of a column where one row of a list with distinct keys is changed. -/
theorem sum_map_at {l : List ρ} (hnodup : (l.map key).Nodup) {row : ρ} (hrow : row ∈ l) {k : κ}
    (hk : key row = k) (change : ρ → ρ) (f : ρ → ℕ) :
    ((l.map fun r => if key r = k then change r else r).map f).sum + f row =
      (l.map f).sum + f (change row) := by
  subst hk
  induction l with
  | nil => cases hrow
  | cons head rest ih =>
    rw [List.map_cons, List.nodup_cons] at hnodup
    obtain ⟨hfresh, hrest⟩ := hnodup
    simp only [List.map_cons, List.sum_cons]
    rcases List.mem_cons.mp hrow with rfl | hin
    · rw [if_pos rfl, map_at_of_not_mem hfresh]
      omega
    · have hne : key head ≠ key row := by
        intro heq
        exact hfresh (List.mem_map.mpr ⟨row, hin, heq.symm⟩)
      have hsum := ih hrest hin
      rw [if_neg hne]
      omega

/-- **The sum of a column after an upsert**: the new value stands in for the old one. -/
theorem sum_upsert (table : Rows key) (new : ρ) (change : ρ → ρ)
    (hkey : ∀ row, key (change row) = key row) (f : ρ → ℕ) :
    ((table.upsert new change hkey).rows.map f).sum + ((table.find? (key new)).map f).getD 0 =
      (table.rows.map f).sum + f ((table.find? (key new)).elim new change) := by
  unfold upsert
  split
  · rename_i hmem
    obtain ⟨row, hrow, hk⟩ := List.mem_map.mp hmem
    have hfind : table.find? (key new) = some row := find?_eq_some.mpr ⟨hrow, hk⟩
    rw [hfind]
    exact sum_map_at table.nodup hrow hk change f
  · rename_i hmem
    have hfind : table.find? (key new) = none := by
      refine List.find?_eq_none.mpr fun row hrow hk => hmem ?_
      rw [← of_decide_eq_true hk]
      exact List.mem_map_of_mem hrow
    rw [hfind]
    simp

/-- The number of rows after an upsert. -/
theorem length_upsert (table : Rows key) (new : ρ) (change : ρ → ρ)
    (hkey : ∀ row, key (change row) = key row) :
    (table.upsert new change hkey).rows.length =
      table.rows.length + if (table.find? (key new)).isNone then 1 else 0 := by
  have hsum := sum_upsert table new change hkey fun _ => 1
  rw [List.map_const', List.map_const', List.sum_replicate_nat, List.sum_replicate_nat] at hsum
  cases hfind : table.find? (key new) with
  | none =>
    rw [hfind] at hsum
    simpa using hsum
  | some row =>
    rw [hfind] at hsum
    simpa using hsum

omit [DecidableEq κ] in
/-- Deleting rows makes no sum greater. -/
theorem sum_filter_le (table : Rows key) (keep : ρ → Bool) (f : ρ → ℕ) :
    ((table.filter keep).rows.map f).sum ≤ (table.rows.map f).sum := by
  show ((table.rows.filter keep).map f).sum ≤ (table.rows.map f).sum
  induction table.rows with
  | nil => exact le_rfl
  | cons row rest ih =>
    rw [List.filter_cons]
    split
    · simp only [List.map_cons, List.sum_cons]
      omega
    · simp only [List.map_cons, List.sum_cons]
      omega

/-! ### The newest rows -/

/-- The rows in descending order of their times, those of one time in the order of the table. -/
def newest (time : ρ → ℕ) (rows : List ρ) : List ρ :=
  rows.insertionSort fun a b => time b ≤ time a

/-- `DELETE … WHERE mine AND key NOT IN (SELECT key … WHERE mine ORDER BY time DESC LIMIT n)` -/
def keepNewest (table : Rows key) (mine : ρ → Bool) (time : ρ → ℕ) (n : ℕ) : Rows key :=
  let kept := ((newest time (table.rows.filter mine)).take n).map key
  table.filter fun row => !mine row || decide (key row ∈ kept)

section
variable {table : Rows key} {mine : ρ → Bool} {time : ρ → ℕ} {n : ℕ}

theorem mem_of_keepNewest {row : ρ} (h : row ∈ (table.keepNewest mine time n).rows) :
    row ∈ table.rows :=
  (mem_filter.mp h).1

omit [DecidableEq κ] in
theorem newest_perm (time : ρ → ℕ) (rows : List ρ) : (newest time rows).Perm rows :=
  List.perm_insertionSort _ _

omit [DecidableEq κ] in
/-- What comes later in the order is not newer. -/
theorem newest_sorted (time : ρ → ℕ) (rows : List ρ) :
    (newest time rows).Pairwise fun a b => time b ≤ time a := by
  have : Std.Total fun a b : ρ => time b ≤ time a := ⟨fun a b => Nat.le_total _ _⟩
  have : IsTrans ρ fun a b => time b ≤ time a := ⟨fun _ _ _ hab hbc => Nat.le_trans hbc hab⟩
  exact List.pairwise_insertionSort _ rows

/-- **A row that is dropped is outlived**: `n` rows stay that are at least as new. -/
theorem newest_dropped {row : ρ} (hrow : row ∈ table.rows)
    (hdropped : row ∉ (table.keepNewest mine time n).rows) :
    mine row = true ∧ ∃ kept : List ρ, kept.length = n ∧ (kept.map key).Nodup ∧
      ∀ other ∈ kept, other ∈ (table.keepNewest mine time n).rows ∧ mine other = true ∧
        time row ≤ time other ∧ key other ≠ key row := by
  have hperm := newest_perm time (table.rows.filter mine)
  have hkeep : ¬ ((!mine row || decide (key row ∈
      ((newest time (table.rows.filter mine)).take n).map key)) = true) :=
    fun hkeep => hdropped (mem_filter.mpr ⟨hrow, hkeep⟩)
  rw [Bool.or_eq_true, Bool.not_eq_true', decide_eq_true_eq, not_or, Bool.not_eq_false] at hkeep
  obtain ⟨hmine, hkept⟩ := hkeep
  set order := newest time (table.rows.filter mine) with horder
  have hmem : row ∈ order := hperm.mem_iff.mpr (List.mem_filter.mpr ⟨hrow, hmine⟩)
  -- the row is behind the ones that stay
  have hlate : row ∈ order.drop n := by
    rw [← List.take_append_drop n order] at hmem
    rcases List.mem_append.mp hmem with hearly | hlate
    · exact absurd (List.mem_map_of_mem hearly) hkept
    · exact hlate
  refine ⟨hmine, order.take n, ?_, ?_, fun other hother => ?_⟩
  · have hpos := List.length_pos_of_mem hlate
    rw [List.length_drop] at hpos
    rw [List.length_take]
    omega
  · have hnodup : (order.map key).Nodup :=
      ((hperm.map key).nodup_iff).mpr (table.nodup.sublist (List.filter_sublist.map _))
    exact hnodup.sublist ((List.take_sublist _ _).map _)
  · obtain ⟨hin, hotherMine⟩ := List.mem_filter.mp (hperm.mem_iff.mp (List.mem_of_mem_take hother))
    have hkey : key other ∈ (order.take n).map key := List.mem_map_of_mem hother
    have hnewer : time row ≤ time other := by
      have hsorted := newest_sorted time (table.rows.filter mine)
      rw [← horder, ← List.take_append_drop n order, List.pairwise_append] at hsorted
      exact hsorted.2.2 other hother row hlate
    refine ⟨mem_filter.mpr ⟨hin, ?_⟩, hotherMine, hnewer, fun heq => hkept (heq ▸ hkey)⟩
    rw [decide_eq_true hkey, Bool.or_true]

end

end Rows

/-! ### Scripts -/

section
variable {σ ε : Type}

/-- Runs statements in order up to the first that fails; there is no rollback. -/
def runScript : List (Except ε (σ → σ)) → σ → Except ε Unit × σ
  | [], s => (.ok (), s)
  | .error e :: _, s => (.error e, s)
  | .ok write :: rest, s => runScript rest (write s)

/-- A script ends normally exactly when none of its statements fails. -/
theorem runScript_eq_ok {script : List (Except ε (σ → σ))} {s : σ} :
    (runScript script s).1 = .ok () ↔ ∀ step ∈ script, ∃ write, step = .ok write := by
  induction script generalizing s with
  | nil => simp [runScript]
  | cons step rest ih =>
    cases step with
    | error e => simp [runScript]
    | ok write => simp [runScript, ih]

/-- A script fails with the error of one of its statements. -/
theorem runScript_eq_error {script : List (Except ε (σ → σ))} {s : σ} {e : ε}
    (h : (runScript script s).1 = .error e) : .error e ∈ script := by
  induction script generalizing s with
  | nil => exact absurd h (by simp [runScript])
  | cons step rest ih =>
    cases step with
    | error e' =>
      have heq : e' = e := by simpa [runScript] using h
      rw [heq]
      exact List.mem_cons_self
    | ok write => exact List.mem_cons_of_mem _ (ih h)

/-- What every statement of a script leaves as it is, the script leaves as it is. -/
theorem runScript_frame {α : Type} (view : σ → α) {script : List (Except ε (σ → σ))} {s : σ}
    (h : ∀ step ∈ script, ∀ write, step = .ok write → ∀ s, view (write s) = view s) :
    view (runScript script s).2 = view s := by
  induction script generalizing s with
  | nil => rfl
  | cons step rest ih =>
    cases step with
    | error e => rfl
    | ok write =>
      rw [runScript, ih fun st hst => h st (List.mem_cons_of_mem _ hst)]
      exact h _ List.mem_cons_self write rfl s

end

end KodyCelld.Lib
