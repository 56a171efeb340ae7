import KodyCelld.Blobs.BlobIndex
import KodyCelld.Lib.Machine

namespace KodyCelld.Blobs

open KodyCelld.Lib
open KodyCelld.Cells (assertQuota withinQuota)

/-!
# The quotas of the blob index (`cells/user-cell.ts`)

The index is written by `blobIndexPut`, which charges an overwrite with the difference, and by
`blobIndexDelete`.

* `assertBlobQuota_room` — what the check leaves room for;
* `blobIndexPut_within` — an index write keeps both quotas;
* `quotas_kept` — so does every sequence of writes and deletes, and a write that throws changes
  nothing.
-/

/-- A call that writes the index. -/
inductive IndexCall where
  | put (now : ℕ) (input : BlobIndexInput)
  | delete (key : Text)

/-- One call on the index: what it returns, and the index after it. -/
def indexCall (quotas : BlobQuotas) (call : IndexCall) (index : Rows BlobRow.key) :
    Except Thrown (Option BlobRow) × Rows BlobRow.key :=
  match call with
  | .put now input =>
    match blobIndexPut quotas now input index with
    | .error e => (.error e, index)
    | .ok (row, written) => (.ok (some row), written)
  | .delete key => (.ok (blobIndexDelete key index).1, (blobIndexDelete key index).2)

/-- The index after a sequence of calls. -/
def indexAfter (quotas : BlobQuotas) (calls : List IndexCall) (index : Rows BlobRow.key) :
    Rows BlobRow.key :=
  calls.foldl (fun index call => (indexCall quotas call index).2) index

/-- A quota is kept; zero is unlimited. -/
def Kept (limit used : ℕ) : Prop := limit = 0 ∨ used ≤ limit

/-- Both quotas are kept. -/
structure WithinQuotas (quotas : BlobQuotas) (index : Rows BlobRow.key) : Prop where
  count : Kept quotas.blobs index.rows.length
  bytes : Kept quotas.blobBytes (blobBytes index)

theorem Kept.mono {limit used used' : ℕ} (h : Kept limit used) (hle : used' ≤ used) :
    Kept limit used' := by
  rcases h with hzero | hused
  · exact .inl hzero
  · right
    omega

theorem withinQuotas_empty (quotas : BlobQuotas) : WithinQuotas quotas ⟨[], List.nodup_nil⟩ :=
  ⟨.inr (Nat.zero_le _), .inr (Nat.zero_le _)⟩

/-- A quota that is asserted has room for one more. -/
theorem assertQuota_room {limit used : ℕ} {what : Text} (h : assertQuota limit used what = .ok ()) :
    Kept limit (used + 1) := by
  unfold assertQuota at h
  split at h
  · rename_i hwithin
    unfold withinQuota at hwithin
    rw [Bool.or_eq_true, decide_eq_true_eq, decide_eq_true_eq] at hwithin
    rcases hwithin with hzero | hused
    · exact .inl hzero
    · right
      omega
  · cases h

section
variable {quotas : BlobQuotas} {index : Rows BlobRow.key}

/-- **The check**: a new key has room among the blobs, and the bytes have room for the write in the
    place of the row that it replaces. -/
theorem assertBlobQuota_room {key : Text} {size : ℕ} {existing : Option BlobRow}
    (h : assertBlobQuota index quotas key size = .ok existing) :
    (index.find? key = none → Kept quotas.blobs (index.rows.length + 1)) ∧
      Kept quotas.blobBytes
        (blobBytes index - ((index.find? key).map BlobRow.size).getD 0 + size) := by
  unfold assertBlobQuota at h
  obtain ⟨_, hcount, h⟩ := bind_eq_ok h
  dsimp only at h
  constructor
  · intro hnone
    rw [hnone] at hcount
    exact assertQuota_room hcount
  · split at h
    · cases h
    · rename_i hbytes
      rw [not_and_or, not_not] at hbytes
      rcases hbytes with hzero | hle
      · exact .inl hzero
      · right
        omega

/-- **An index write keeps both quotas.** -/
theorem blobIndexPut_within {now : ℕ} {input : BlobIndexInput} {row : BlobRow}
    {written : Rows BlobRow.key} (h : WithinQuotas quotas index)
    (hput : blobIndexPut quotas now input index = .ok (row, written)) :
    WithinQuotas quotas written := by
  unfold blobIndexPut at hput
  split at hput
  · cases hput
  rename_i existing hquota
  obtain ⟨hcount, hbytes⟩ := assertBlobQuota_room hquota
  obtain ⟨-, rfl⟩ := Prod.mk.inj (Except.ok.inj hput)
  have hlength := index.length_upsert (input.row now) (input.update now) (input.update_key now)
  have hsum := index.sum_upsert (input.row now) (input.update now) (input.update_key now)
    BlobRow.size
  have hkey : (input.row now).key = input.key := rfl
  rw [hkey] at hlength hsum
  constructor
  · -- only a new key adds a row
    rw [hlength]
    cases hfind : index.find? input.key with
    | none => exact hcount hfind
    | some old => exact h.count
  · -- the old size is part of the sum, so nothing is lost in the subtraction
    have hsize : ((index.find? input.key).elim (input.row now) (input.update now)).size =
        input.size := by
      cases index.find? input.key <;> rfl
    rw [hsize] at hsum
    apply hbytes.mono
    show ((index.upsert _ _ _).rows.map BlobRow.size).sum ≤
      (index.rows.map BlobRow.size).sum - _ + _
    omega

theorem blobIndexDelete_within (key : Text) (h : WithinQuotas quotas index) :
    WithinQuotas quotas (blobIndexDelete key index).2 := by
  constructor
  · apply h.count.mono
    exact List.length_filter_le _ _
  · apply h.bytes.mono
    exact index.sum_filter_le _ _

/-- **One call** keeps both quotas. -/
theorem indexCall_within (call : IndexCall) (h : WithinQuotas quotas index) :
    WithinQuotas quotas (indexCall quotas call index).2 := by
  cases call with
  | put now input =>
    simp only [indexCall]
    split
    · exact h
    · rename_i hput
      exact blobIndexPut_within h hput
  | delete key => exact blobIndexDelete_within key h

theorem indexAfter_within (calls : List IndexCall) (h : WithinQuotas quotas index) :
    WithinQuotas quotas (indexAfter quotas calls index) := by
  induction calls generalizing index with
  | nil => exact h
  | cons call rest ih => exact ih (indexCall_within call h)

end

/-- **Blob quotas are an invariant.** After every sequence of index writes and deletes on an empty
    index, neither the number of the blobs nor the sum of their sizes exceeds its quota, and a call
    that throws next changes nothing. -/
theorem quotas_kept (quotas : BlobQuotas) (calls : List IndexCall) :
    WithinQuotas quotas (indexAfter quotas calls ⟨[], List.nodup_nil⟩) ∧
      ∀ call e, (indexCall quotas call (indexAfter quotas calls ⟨[], List.nodup_nil⟩)).1 = .error e →
        (indexCall quotas call (indexAfter quotas calls ⟨[], List.nodup_nil⟩)).2 =
          indexAfter quotas calls ⟨[], List.nodup_nil⟩ := by
  refine ⟨indexAfter_within calls (withinQuotas_empty quotas), ?_⟩
  intro call e herror
  cases call with
  | put now input =>
    simp only [indexCall] at herror ⊢
    split at herror
    · rfl
    · cases herror
  | delete key => cases herror

end KodyCelld.Blobs
