import Mathlib.Data.List.Nodup
import Mathlib.Data.List.Perm.Subperm
import Mathlib.Data.List.Sort

namespace KodyCelld.Lib

/-!
# The first rows of an order

`SELECT * FROM rows WHERE keep ORDER BY rank LIMIT n`, where rows of one rank may stand in any
order.

* `selectRows` — the statement, for one order of the scan;
* `FirstRows` — the lists that it may return;
* `firstRows_iff_select` — each of them is returned for some scan;
* `selects_iff` — when the first rows of one condition and rank are the first rows of another.
-/

variable {α : Type}

/-- The order in which a scan finds rows. -/
structure ScanOrder (α : Type) where
  scan : List α → List α
  perm : ∀ rows, (scan rows).Perm rows

/-- `SELECT * FROM rows WHERE keep ORDER BY r LIMIT n` -/
def selectRows (r : α → α → Prop) [DecidableRel r] (order : ScanOrder α) (keep : α → Bool) (n : ℕ)
    (rows : List α) : List α :=
  ((order.scan (rows.filter keep)).insertionSort r).take n

/-- The first `n` rows with a property, in an order by rank. -/
def FirstRows (r : α → α → Prop) (n : ℕ) (rows : List α) (P : α → Prop) (listed : List α) : Prop :=
  ∃ order : List α, order.Pairwise r ∧ order.Nodup ∧ (∀ row, row ∈ order ↔ row ∈ rows ∧ P row) ∧
    listed = order.take n

/-- There are `n` rows with a property that stand ahead of something. -/
def Ahead (n : ℕ) (rows : List α) (P ahead : α → Prop) : Prop :=
  ∃ others : List α, others.Nodup ∧ others.length = n ∧
    ∀ other ∈ others, other ∈ rows ∧ P other ∧ ahead other

/-! ### Orders -/

/-- What is in a list is in its first part or in the rest. -/
theorem mem_take_or_drop {order : List α} (n : ℕ) {a : α} (h : a ∈ order) :
    a ∈ order.take n ∨ a ∈ order.drop n := by
  rw [← List.mem_append, List.take_append_drop]
  exact h

section
variable {r : α → α → Prop} {n : ℕ} {rows : List α} {P Q : α → Prop}

/-- The first part of an order ranks before the rest. -/
theorem rank_take_drop {order : List α} (h : order.Pairwise r) {a b : α} (ha : a ∈ order.take n)
    (hb : b ∈ order.drop n) : r a b := by
  rw [← List.take_append_drop n order] at h
  exact (List.pairwise_append.mp h).2.2 a ha b hb

/-- Rows that are sorted. -/
theorem exists_sorted [Std.Total r] [IsTrans α r] (hrows : rows.Nodup) (P : α → Prop) :
    ∃ order : List α, order.Pairwise r ∧ order.Nodup ∧ ∀ row, row ∈ order ↔ row ∈ rows ∧ P row := by
  classical
  refine ⟨(rows.filter fun row => decide (P row)).insertionSort r, List.pairwise_insertionSort r _,
    ?_, fun row => ?_⟩
  · exact (List.perm_insertionSort r _).nodup_iff.mpr (hrows.filter _)
  · rw [(List.perm_insertionSort r _).mem_iff, List.mem_filter, decide_eq_true_eq]

/-- The first rows have no place for `n` others beside one that is none of these. -/
theorem exists_out {found others : List α} {a : α} (hnodup : others.Nodup)
    (ha : a ∈ found.take others.length) (hnot : a ∉ others) :
    ∃ other ∈ others, other ∉ found.take others.length := by
  by_contra hall
  push Not at hall
  have hsub : (a :: others) ⊆ found.take others.length := List.cons_subset.mpr ⟨ha, hall⟩
  have hlength := (List.nodup_cons.mpr ⟨hnot, hnodup⟩).subperm hsub |>.length_le
  have htake := List.length_take_le others.length found
  rw [List.length_cons] at hlength
  omega

/-! ### What a statement returns -/

instance : Inhabited (ScanOrder α) := ⟨⟨id, fun _ => List.Perm.refl _⟩⟩

/-- Only what holds of the rows counts. -/
theorem firstRows_congr (h : ∀ row ∈ rows, (P row ↔ Q row)) {listed : List α} :
    FirstRows r n rows P listed ↔ FirstRows r n rows Q listed := by
  have hmem : ∀ row, (row ∈ rows ∧ P row) ↔ (row ∈ rows ∧ Q row) :=
    fun row => and_congr_right fun hrow => h row hrow
  unfold FirstRows
  simp only [hmem]

/-- The first rows are rows. -/
theorem FirstRows.mem {listed : List α} (h : FirstRows r n rows P listed) :
    ∀ row ∈ listed, row ∈ rows := by
  obtain ⟨order, -, -, horder, rfl⟩ := h
  exact fun row hrow => ((horder row).mp (List.mem_of_mem_take hrow)).1

/-- **A statement and its results**: what it may return is what it returns for some scan. -/
theorem firstRows_iff_select [Std.Total r] [IsTrans α r] [DecidableRel r] (hrows : rows.Nodup)
    {keep : α → Bool} {listed : List α} : FirstRows r n rows (fun row => keep row = true) listed ↔
      ∃ order : ScanOrder α, selectRows r order keep n rows = listed := by
  classical
  constructor
  · rintro ⟨order, hsorted, hnodup, horder, rfl⟩
    have hperm : order.Perm (rows.filter keep) :=
      (List.perm_ext_iff_of_nodup hnodup (hrows.filter _)).mpr fun row =>
        (horder row).trans List.mem_filter.symm
    refine ⟨⟨fun found => if found = rows.filter keep then order else found, fun found => ?_⟩, ?_⟩
    · by_cases h : found = rows.filter keep
      · rw [if_pos h, h]
        exact hperm
      · rw [if_neg h]
    · show ((if rows.filter keep = rows.filter keep then order else _).insertionSort r).take n = _
      rw [if_pos rfl, hsorted.insertionSort_eq]
  · rintro ⟨order, rfl⟩
    have hperm := (List.perm_insertionSort r (order.scan (rows.filter keep))).trans (order.perm _)
    exact ⟨_, List.pairwise_insertionSort r _, hperm.nodup_iff.mpr (hrows.filter _),
      fun row => hperm.mem_iff.trans List.mem_filter, rfl⟩

/-- The order that has a row first among its equals. -/
theorem exists_foremost [Std.Total r] [IsTrans α r] (hrows : rows.Nodup) {row : α}
    (hrow : row ∈ rows) (hP : P row) : ∃ before after : List α,
      (before ++ row :: after).Pairwise r ∧ (before ++ row :: after).Nodup ∧
      (∀ other, other ∈ before ++ row :: after ↔ other ∈ rows ∧ P other) ∧
      ∀ other, other ∈ before ↔ other ∈ rows ∧ P other ∧ ¬ r row other := by
  obtain ⟨before, hbefore, hnodupBefore, hmemBefore⟩ :=
    exists_sorted (r := r) hrows fun other => P other ∧ ¬ r row other
  obtain ⟨after, hafter, hnodupAfter, hmemAfter⟩ :=
    exists_sorted (r := r) hrows fun other => P other ∧ r row other ∧ other ≠ row
  refine ⟨before, after, ?_, ?_, fun other => ?_, hmemBefore⟩
  · refine List.pairwise_append.mpr ⟨hbefore, List.pairwise_cons.mpr ⟨?_, hafter⟩, ?_⟩
    · exact fun other hother => ((hmemAfter other).mp hother).2.2.1
    · intro a ha b hb
      have hrank : r a row := (Std.Total.total a row).resolve_right ((hmemBefore a).mp ha).2.2
      rcases List.mem_cons.mp hb with rfl | hb
      · exact hrank
      · exact trans_of r hrank ((hmemAfter b).mp hb).2.2.1
  · refine List.nodup_append.mpr ⟨hnodupBefore, List.nodup_cons.mpr ⟨?_, hnodupAfter⟩, ?_⟩
    · exact fun hmem => ((hmemAfter row).mp hmem).2.2.2 rfl
    · rintro a ha b hb rfl
      have hnot := ((hmemBefore a).mp ha).2.2
      rcases List.mem_cons.mp hb with rfl | hb
      · exact hnot ((Std.Total.total a a).elim id id)
      · exact hnot ((hmemAfter a).mp hb).2.2.1
  · rw [List.mem_append, List.mem_cons, hmemBefore, hmemAfter]
    by_cases hsame : other = row
    · subst hsame
      simp [hrow, hP]
    · by_cases hrank : r row other
      · simp [hsame, hrank]
      · simp [hsame, hrank]

/-- What is before a row that is not shown, if it is at least `n`. -/
theorem ahead_of_hidden {before after : List α} {row : α} (hnodup : before.Nodup)
    (hbefore : ∀ other, other ∈ before ↔ other ∈ rows ∧ P other ∧ ¬ r row other)
    (hhidden : row ∉ (before ++ row :: after).take n) :
    Ahead n rows P fun other => ¬ r row other := by
  have hlength : n ≤ before.length := by
    by_contra hshort
    refine hhidden ?_
    rw [List.take_append, List.mem_append]
    obtain ⟨k, hk⟩ := Nat.exists_eq_succ_of_ne_zero (Nat.sub_ne_zero_of_lt (not_le.mp hshort))
    rw [hk]
    exact .inr List.mem_cons_self
  refine ⟨before.take n, hnodup.sublist (List.take_sublist _ _), ?_, fun other hother => ?_⟩
  · rw [List.length_take, min_eq_left hlength]
  · exact (hbefore other).mp (List.mem_of_mem_take hother)

/-- A row that `n` others precede is not among the first `n`. -/
theorem not_shown [Std.Total r] {order : List α} (hsorted : order.Pairwise r) {row : α}
    {others : List α} (hnodup : others.Nodup)
    (hothers : ∀ other ∈ others, other ∈ order ∧ ¬ r row other) :
    row ∉ order.take others.length := by
  intro hmem
  obtain ⟨front, back, hsplit⟩ := List.append_of_mem hmem
  have hwhole : order = front ++ row :: (back ++ order.drop others.length) := by
    rw [← List.cons_append, ← List.append_assoc, ← hsplit, List.take_append_drop]
  -- everything from the row on ranks behind it
  have hsub : others ⊆ front := by
    intro other hother
    obtain ⟨hin, hrank⟩ := hothers other hother
    rw [hwhole] at hin hsorted
    rcases List.mem_append.mp hin with hfront | hrest
    · exact hfront
    · rcases List.mem_cons.mp hrest with rfl | hrest
      · exact absurd ((Std.Total.total other other).elim id id) hrank
      · exact absurd (List.rel_of_pairwise_cons (List.pairwise_append.mp hsorted).2.1 hrest) hrank
  have hfront := (hnodup.subperm hsub).length_le
  have htake := List.length_take_le others.length order
  rw [hsplit, List.length_append, List.length_cons] at htake
  omega

/-! ### One selection and another -/

section
variable {s : α → α → Prop}

/-- Whatever the first rows of the one condition are, they are the first rows of the other. -/
def Selects (r s : α → α → Prop) (n : ℕ) (rows : List α) (P Q : α → Prop) : Prop :=
  ∀ listed, FirstRows r n rows P listed → FirstRows s n rows Q listed

/-- A row with the first property that lacks the second must not be shown. -/
theorem Selects.surplus [Std.Total r] [IsTrans α r] (h : Selects r s n rows P Q)
    (hrows : rows.Nodup) {row : α} (hrow : row ∈ rows) (hP : P row) (hQ : ¬ Q row) :
    Ahead n rows P fun other => ¬ r row other := by
  obtain ⟨before, after, hsorted, hnodup, hmem, hbefore⟩ := exists_foremost (r := r) hrows hrow hP
  have hhidden : row ∉ (before ++ row :: after).take n := by
    intro hshown
    obtain ⟨order, -, -, horder, htake⟩ := h _ ⟨_, hsorted, hnodup, hmem, rfl⟩
    rw [htake] at hshown
    exact hQ ((horder row).mp (List.mem_of_mem_take hshown)).2
  exact ahead_of_hidden (List.nodup_append.mp hnodup).1 hbefore hhidden

/-- A row that the other rank has behind a row of both must not be shown before it. -/
theorem Selects.misplaced [Std.Total r] [IsTrans α r] [Std.Total s] (h : Selects r s n rows P Q)
    (hrows : rows.Nodup) {row late : α} (hrow : row ∈ rows) (hP : P row) (hlate : late ∈ rows)
    (hQlate : Q late) (hrank : r row late) (hother : ¬ s row late) :
    Ahead n rows P fun other => ¬ r row other := by
  obtain ⟨before, after, hsorted, hnodup, hmem, hbefore⟩ := exists_foremost (r := r) hrows hrow hP
  have hhidden : row ∉ (before ++ row :: after).take n := by
    intro hshown
    refine hother ?_
    obtain ⟨order, hsortedOrder, -, horder, htake⟩ := h _ ⟨_, hsorted, hnodup, hmem, rfl⟩
    rcases mem_take_or_drop n ((horder late).mpr ⟨hlate, hQlate⟩) with hin | hout
    · -- both are shown, the row first
      obtain ⟨k, hk⟩ : ∃ k, (before ++ row :: after).take n = before ++ row :: after.take k := by
        have hlong : ¬ n ≤ before.length := by
          intro hshort
          rw [List.take_append_of_le_length hshort] at hshown
          exact (List.disjoint_of_nodup_append hnodup) (List.mem_of_mem_take hshown)
            List.mem_cons_self
        obtain ⟨k, hk⟩ := Nat.exists_eq_succ_of_ne_zero (Nat.sub_ne_zero_of_lt (not_le.mp hlong))
        refine ⟨k, ?_⟩
        rw [List.take_append, List.take_of_length_le (by omega), hk, List.take_succ_cons]
      have hpair : (before ++ row :: after.take k).Pairwise s := by
        rw [← hk, htake]
        exact hsortedOrder.sublist (List.take_sublist _ _)
      rw [← htake, hk] at hin
      rcases List.mem_append.mp hin with hin | hin
      · exact absurd hrank ((hbefore late).mp hin).2.2
      · rcases List.mem_cons.mp hin with rfl | hin
        · exact (Std.Total.total late late).elim id id
        · exact List.rel_of_pairwise_cons (List.pairwise_append.mp hpair).2.1 hin
    · rw [htake] at hshown
      exact rank_take_drop hsortedOrder hshown hout
  exact ahead_of_hidden (List.nodup_append.mp hnodup).1 hbefore hhidden

/-- A row with the second property that lacks the first must not be asked for. -/
theorem Selects.missed [Std.Total r] [IsTrans α r] (h : Selects r s n rows P Q) (hrows : rows.Nodup)
    {row : α} (hrow : row ∈ rows) (hQ : Q row) (hP : ¬ P row) :
    Ahead n rows (fun other => P other ∧ Q other) fun other => s other row := by
  obtain ⟨found, hfound, hnodupFound, hmemFound⟩ := exists_sorted (r := r) hrows P
  obtain ⟨order, hsorted, hnodup, horder, htake⟩ :=
    h _ ⟨found, hfound, hnodupFound, hmemFound, rfl⟩
  have hshown : ∀ other ∈ order.take n, P other := by
    intro other hother
    rw [← htake] at hother
    exact ((hmemFound other).mp (List.mem_of_mem_take hother)).2
  have hdrop : row ∈ order.drop n :=
    (mem_take_or_drop n ((horder row).mpr ⟨hrow, hQ⟩)).resolve_left fun hmem => hP (hshown row hmem)
  refine ⟨order.take n, hnodup.sublist (List.take_sublist _ _), ?_, fun other hother => ?_⟩
  · have hpos := List.length_pos_of_mem hdrop
    rw [List.length_drop] at hpos
    rw [List.length_take]
    omega
  · obtain ⟨hin, hasked⟩ := (horder other).mp (List.mem_of_mem_take hother)
    exact ⟨hin, ⟨hshown other hother, hasked⟩, rank_take_drop hsorted hother hdrop⟩

/-- **When one selection is another**: the rows that one of the conditions has too many, that the
    ranks order differently, or that are missing, stand behind `n` that are found. -/
theorem selects_iff [Std.Total r] [IsTrans α r] [Std.Total s] [IsTrans α s] (hrows : rows.Nodup) :
    Selects r s n rows P Q ↔
      (∀ row ∈ rows, P row → ¬ Q row → Ahead n rows P fun other => ¬ r row other) ∧
      (∀ row ∈ rows, P row → ∀ late ∈ rows, P late → Q late → r row late → ¬ s row late →
        Ahead n rows P fun other => ¬ r row other) ∧
      ∀ row ∈ rows, Q row → ¬ P row →
        Ahead n rows (fun other => P other ∧ Q other) fun other => s other row := by
  constructor
  · intro h
    exact ⟨fun row hrow hP hQ => h.surplus hrows hrow hP hQ,
      fun row hrow hP late hlate _ hQlate => h.misplaced hrows hrow hP hlate hQlate,
      fun row hrow hQ hP => h.missed hrows hrow hQ hP⟩
  · rintro ⟨hsurplus, hmisplaced, hmissed⟩ _ ⟨found, hsorted, hnodup, hfound, rfl⟩
    have hhidden : ∀ row, (Ahead n rows P fun other => ¬ r row other) → row ∉ found.take n := by
      rintro row ⟨others, hnodupOthers, rfl, hothers⟩
      refine not_shown hsorted hnodupOthers fun other hother => ?_
      exact ⟨(hfound other).mpr ⟨(hothers other hother).1, (hothers other hother).2.1⟩,
        (hothers other hother).2.2⟩
    have hshown : ∀ row ∈ found.take n, row ∈ rows ∧ P row ∧ Q row := by
      intro row hmem
      obtain ⟨hrow, hP⟩ := (hfound row).mp (List.mem_of_mem_take hmem)
      refine ⟨hrow, hP, ?_⟩
      by_contra hQ
      exact hhidden row (hsurplus row hrow hP hQ) hmem
    -- the ranks agree from a row that is shown on
    have hagree : ∀ a ∈ found.take n, ∀ b ∈ rows, P b → Q b → r a b → s a b := by
      intro a ha b hb hPb hQb hrank
      obtain ⟨hrow, hP, -⟩ := hshown a ha
      by_contra hs
      exact hhidden a (hmisplaced a hrow hP b hb hPb hQb hrank hs) ha
    -- a row that is missed stands behind the first found, and there are `n` of these
    have hbehind : ∀ row ∈ rows, Q row → ¬ P row →
        (∀ a ∈ found.take n, s a row) ∧ n ≤ found.length := by
      intro row hrow hQ hP
      obtain ⟨others, hnodupOthers, rfl, hothers⟩ := hmissed row hrow hQ hP
      have hin : ∀ other ∈ others, other ∈ found := fun other hother =>
        (hfound other).mpr ⟨(hothers other hother).1, (hothers other hother).2.1.1⟩
      refine ⟨fun a ha => ?_, (hnodupOthers.subperm hin).length_le⟩
      by_cases hmem : a ∈ others
      · exact (hothers a hmem).2.2
      · obtain ⟨other, hother, hout⟩ := exists_out hnodupOthers ha hmem
        obtain ⟨hrowOther, ⟨hPother, hQother⟩, hrank⟩ := hothers other hother
        have hdrop := (mem_take_or_drop others.length (hin other hother)).resolve_left hout
        exact trans_of s (hagree a ha other hrowOther hPother hQother
          (rank_take_drop hsorted ha hdrop)) hrank
    obtain ⟨rest, hrest, hnodupRest, hmemRest⟩ :=
      exists_sorted (r := s) hrows fun row => Q row ∧ row ∉ found.take n
    refine ⟨found.take n ++ rest, ?_, ?_, fun row => ?_, ?_⟩
    · have hpair : (found.take n).Pairwise s := by
        refine (hsorted.sublist (List.take_sublist n _)).imp_of_mem fun ha hb hrank => ?_
        obtain ⟨hrow, hP, hQ⟩ := hshown _ hb
        exact hagree _ ha _ hrow hP hQ hrank
      refine List.pairwise_append.mpr ⟨hpair, hrest, fun a ha b hb => ?_⟩
      obtain ⟨hrow, hQ, hnot⟩ := (hmemRest b).mp hb
      by_cases hP : P b
      · have hdrop := (mem_take_or_drop n ((hfound b).mpr ⟨hrow, hP⟩)).resolve_left hnot
        exact hagree a ha b hrow hP hQ (rank_take_drop hsorted ha hdrop)
      · exact (hbehind b hrow hQ hP).1 a ha
    · refine List.nodup_append.mpr ⟨hnodup.sublist (List.take_sublist _ _), hnodupRest, ?_⟩
      rintro a ha b hb rfl
      exact ((hmemRest a).mp hb).2.2 ha
    · rw [List.mem_append, hmemRest]
      constructor
      · rintro (hmem | ⟨hrow, hQ, -⟩)
        · exact ⟨(hshown row hmem).1, (hshown row hmem).2.2⟩
        · exact ⟨hrow, hQ⟩
      · rintro ⟨hrow, hQ⟩
        by_cases hmem : row ∈ found.take n
        · exact .inl hmem
        · exact .inr ⟨hrow, hQ, hmem⟩
    · by_cases hlength : n ≤ found.length
      · rw [List.take_append_of_le_length (by rw [List.length_take]; omega), List.take_take,
          min_self]
      · -- everything that is asked for is found, and shown
        have hnone : rest = [] := by
          refine List.eq_nil_iff_forall_not_mem.mpr fun row hmem => ?_
          obtain ⟨hrow, hQ, hnot⟩ := (hmemRest row).mp hmem
          by_cases hP : P row
          · refine hnot ?_
            rw [List.take_of_length_le (by omega)]
            exact (hfound row).mpr ⟨hrow, hP⟩
          · exact hlength (hbehind row hrow hQ hP).2
        rw [hnone, List.append_nil, List.take_take, min_self]

end

end

end KodyCelld.Lib
