import KodyCelld.Lib.Rows

namespace KodyCelld.Lib

/-!
# Eviction in an order

Rows are deleted one by one, the first one in an order each time, until what they weigh together is
no longer too much.

* `first?_eq_some` — the row that `ORDER BY … LIMIT 1` selects;
* `sum_delete` — what is left to weigh after a deletion;
* `evictFrom_spec` — **eviction**: the weight that is left is not too much, and no row stays that is
  before a deleted one.
-/

namespace Rows

variable {ρ κ : Type} {key : ρ → κ} [DecidableEq κ]

/-- `SELECT … ORDER BY … LIMIT 1` -/
def first? (before : ρ → ρ → Bool) : List ρ → Option ρ
  | [] => none
  | row :: rest =>
    match first? before rest with
    | none => some row
    | some other => if before row other then some row else some other

/-- Deletes first rows while the total is too much; with the number of deleted rows. -/
def evictFrom (before : ρ → ρ → Bool) (weight : ρ → ℕ) (tooMuch : ℕ → Bool) :
    (fuel : ℕ) → Rows key → (total : ℕ) → Rows key × ℕ
  | 0, table, _ => (table, 0)
  | fuel + 1, table, total =>
    if tooMuch total then
      match first? before table.rows with
      | none => (table, 0)
      | some victim =>
        let (rest, evicted) := evictFrom before weight tooMuch fuel
          (table.filter fun row => key row ≠ key victim) (total - weight victim)
        (rest, evicted + 1)
    else (table, 0)

/-- A preorder in which any two rows can be compared. -/
structure Ordering (before : ρ → ρ → Bool) : Prop where
  total : ∀ a b, before a b = true ∨ before b a = true
  trans : ∀ a b c, before a b = true → before b c = true → before a c = true

omit [DecidableEq κ] in
theorem first?_eq_none {before : ρ → ρ → Bool} {rows : List ρ} :
    first? before rows = none ↔ rows = [] := by
  cases rows with
  | nil => simp [first?]
  | cons row rest =>
    rw [first?]
    refine ⟨fun h => ?_, fun h => absurd h (List.cons_ne_nil _ _)⟩
    split at h
    · exact absurd h (by simp)
    split at h
    · exact absurd h (by simp)
    · exact absurd h (by simp)

omit [DecidableEq κ] in
/-- The selected row is in the table and before every row of it. -/
theorem first?_eq_some {before : ρ → ρ → Bool} (hordering : Ordering before) {rows : List ρ}
    {victim : ρ} (h : first? before rows = some victim) :
    victim ∈ rows ∧ ∀ row ∈ rows, before victim row = true := by
  have hself : ∀ row, before row row = true := fun row => (hordering.total row row).elim id id
  induction rows generalizing victim with
  | nil => exact absurd h (by simp [first?])
  | cons row rest ih =>
    rw [first?] at h
    cases hrest : first? before rest with
    | none =>
      rw [hrest] at h
      obtain rfl := Option.some.inj h
      rw [first?_eq_none.mp hrest]
      exact ⟨List.mem_cons_self, fun other hother => by
        rw [List.mem_singleton.mp hother]
        exact hself row⟩
    | some other =>
      rw [hrest] at h
      obtain ⟨hmem, hall⟩ := ih hrest
      dsimp only at h
      split at h
      · rename_i hbefore
        obtain rfl := Option.some.inj h
        refine ⟨List.mem_cons_self, fun b hb => ?_⟩
        rcases List.mem_cons.mp hb with rfl | hb
        · exact hself b
        · exact hordering.trans _ _ _ hbefore (hall b hb)
      · rename_i hnot
        obtain rfl := Option.some.inj h
        refine ⟨List.mem_cons_of_mem _ hmem, fun b hb => ?_⟩
        rcases List.mem_cons.mp hb with rfl | hb
        · exact (hordering.total b other).resolve_left hnot
        · exact hall b hb

/-- Deleting a row takes its weight away. -/
theorem sum_delete (table : Rows key) {victim : ρ} (h : victim ∈ table.rows) (weight : ρ → ℕ) :
    ((table.filter fun row => key row ≠ key victim).rows.map weight).sum + weight victim =
      (table.rows.map weight).sum := by
  obtain ⟨rows, hnodup⟩ := table
  show ((rows.filter fun row => key row ≠ key victim).map weight).sum + weight victim =
    (rows.map weight).sum
  induction rows with
  | nil => exact absurd h List.not_mem_nil
  | cons row rest ih =>
    rw [List.map_cons, List.nodup_cons] at hnodup
    rcases List.mem_cons.mp h with rfl | hmem
    · -- no other row has the key
      have hrest : rest.filter (fun row => key row ≠ key victim) = rest := by
        refine List.filter_eq_self.mpr fun row hrow => ?_
        rw [decide_eq_true_eq]
        exact fun heq => hnodup.1 (heq ▸ List.mem_map_of_mem hrow)
      rw [List.filter_cons_of_neg (by simp), hrest, List.map_cons, List.sum_cons]
      omega
    · have hne : key row ≠ key victim := fun heq => hnodup.1 (heq ▸ List.mem_map_of_mem hmem)
      rw [List.filter_cons_of_pos (by simpa using hne), List.map_cons, List.map_cons, List.sum_cons,
        List.sum_cons, ← ih hnodup.2 hmem]
      omega

/-- Deleting a row leaves fewer. -/
theorem length_delete_lt (table : Rows key) {victim : ρ} (h : victim ∈ table.rows) :
    (table.filter fun row => key row ≠ key victim).rows.length < table.rows.length := by
  show (table.rows.filter fun row => key row ≠ key victim).length < table.rows.length
  refine List.length_filter_lt_length_iff_exists.mpr ⟨victim, h, by simp⟩

/-- **Eviction**: with a round for every row, what is left does not weigh too much; and a row that
    stays is not before a deleted one. -/
theorem evictFrom_spec {before : ρ → ρ → Bool} {weight : ρ → ℕ} {tooMuch : ℕ → Bool}
    (hordering : Ordering before) (hnothing : tooMuch 0 = false) {fuel : ℕ} {table : Rows key}
    (hfuel : table.rows.length ≤ fuel) :
    let after := (evictFrom before weight tooMuch fuel table (table.rows.map weight).sum).1
    tooMuch (after.rows.map weight).sum = false ∧ (∀ row ∈ after.rows, row ∈ table.rows) ∧
      ∀ kept ∈ after.rows, ∀ gone ∈ table.rows, gone ∉ after.rows → before gone kept = true := by
  induction fuel generalizing table with
  | zero =>
    have hnil : table.rows = [] := List.length_eq_zero_iff.mp (Nat.le_zero.mp hfuel)
    dsimp only [evictFrom]
    rw [hnil]
    exact ⟨hnothing, fun row hrow => hrow, fun kept hkept => absurd hkept List.not_mem_nil⟩
  | succ fuel ih =>
    dsimp only
    rw [evictFrom]
    split
    · rename_i hmuch
      split
      · -- nothing to delete
        rename_i hnone
        rw [first?_eq_none.mp hnone] at hmuch
        exact absurd hmuch (by simp [hnothing])
      · rename_i victim hvictim
        obtain ⟨hmem, hfirst⟩ := first?_eq_some hordering hvictim
        have hlength := length_delete_lt table hmem
        have hsum := sum_delete table hmem weight
        have hih := @ih (table.filter fun row => key row ≠ key victim) (by omega)
        rw [← hsum, Nat.add_sub_cancel]
        dsimp only at hih ⊢
        obtain ⟨hfits, hsub, horder⟩ := hih
        refine ⟨hfits, fun row hrow => (mem_filter.mp (hsub row hrow)).1,
          fun kept hkept gone hgone hnot => ?_⟩
        by_cases hkey : key gone = key victim
        · -- the deleted row itself is before all others
          obtain rfl : gone = victim := List.inj_on_of_nodup_map table.nodup hgone hmem hkey
          exact hfirst kept (mem_filter.mp (hsub kept hkept)).1
        · exact horder kept hkept gone (mem_filter.mpr ⟨hgone, by simpa using hkey⟩) hnot
    · rename_i hfits
      exact ⟨by simpa using hfits, fun row hrow => hrow,
        fun kept _ gone hgone hnot => absurd hgone hnot⟩

end Rows

end KodyCelld.Lib
