import KodyCelld.Blobs.BlobIndex
import KodyCelld.Lib.Bytes
import KodyCelld.Lib.Machine

namespace KodyCelld.Blobs

open KodyCelld.Lib

/-!
# The blob service (`blobs/service.ts`)

Puts, gets and deletes of one user.  The index and the bucket are two systems: a put stores the
object and then writes its row, a delete removes the row and then the object, and any other call
may run in between.

* `resume` — the segments of the calls between their awaits;
* `WritesCalm` — the steps that keep the bucket and the index together;
* `blobInv_step` — under it a row agrees with its object, unless the put of that object has still to
  write its row;
* `blobs_agree` — then the index and the bucket agree whenever nothing is in flight, and a put that
  fails leaves the blob readable that it found;
* `lost_recheck` — an overwrite that loses the quota check takes the old content with it.

Quotas, clock, etags and failures are inputs; an operation that fails has no effect.  `seen`, `mark`,
`replaced`, the counter `changes` and what a failed put carries are for the statements only.
-/

abbrev Bytes := List UInt8

/-! ### The bucket and the index -/

/-- The index of a user, the objects of the bucket by object key, and how often the row or the object
    of a blob key was written. -/
structure BlobState where
  index : Rows BlobRow.key
  objects : Text → Option Bytes
  changes : Text → ℕ

def BlobState.empty : BlobState := ⟨⟨[], List.nodup_nil⟩, fun _ => none, fun _ => 0⟩

/-- One more change of a key. -/
def BlobState.changed (s : BlobState) (key : Text) : Text → ℕ :=
  Function.update s.changes key (s.changes key + 1)

section
variable (userId : Text)

/-- `store.get(objectKey(key))` -/
def BlobState.object (s : BlobState) (key : Text) : Option Bytes := s.objects (objectKeyFor userId key)

/-- `store.put(objectKey(key), body)` -/
def BlobState.putObject (s : BlobState) (key : Text) (body : Bytes) : BlobState :=
  { s with
    objects := Function.update s.objects (objectKeyFor userId key) (some body)
    changes := s.changed key }

/-- `store.delete([objectKey(key)])` -/
def BlobState.deleteObject (s : BlobState) (key : Text) : BlobState :=
  if (s.object userId key).isNone then s
  else
    { s with
      objects := Function.update s.objects (objectKeyFor userId key) none
      changes := s.changed key }

/-- What `get` finds: the row of the key with the object. -/
def BlobState.readable (s : BlobState) (key : Text) : Option (BlobRow × Bytes) :=
  Option.map₂ Prod.mk (s.index.find? key) (s.object userId key)

end

/-- The rows after `blobIndexPut`. -/
def BlobState.putRow (s : BlobState) (key : Text) (index : Rows BlobRow.key) : BlobState :=
  { s with index := index, changes := s.changed key }

/-- The rows after `blobIndexDelete`. -/
def BlobState.deleteRow (s : BlobState) (key : Text) : BlobState :=
  if (s.index.find? key).isNone then s
  else { s with index := (blobIndexDelete key s.index).2, changes := s.changed key }

/-! ### Calls -/

structure PutInput where
  key : Json
  body : Bytes
  contentType : Option Text
  metadata : Option Json
  packageName : Option Text

inductive Call where
  | put (input : PutInput)
  | get (key : Json)
  | delete (key : Json)

/-- A put whose checks passed.  `seen` is what was readable when its quota was checked, `mark` how
    often the key had been changed. -/
structure Upload where
  key : Text
  contentType : ContentType
  metadata : Obj Text
  body : Bytes
  packageName : Option Text
  previous : Option BlobRow
  seen : Option (BlobRow × Bytes)
  mark : ℕ

inductive Frame where
  | fresh (c : Call)
  | storing (u : Upload)
  /-- The object is stored; `replaced` is the one that it replaced. -/
  | indexing (u : Upload) (etag : Text) (replaced : Option Bytes)
  /-- In the `catch` of a first write. -/
  | undoing (u : Upload) (error : Thrown)
  | reading (key : Text) (record : BlobRow)
  /-- A get that found no object. -/
  | dropping (key : Text)
  | deleting (key : Text) (record : Option BlobRow)

/-- What the pending operation of a call meets: its failure, or what it depends on. -/
inductive Input where
  | fails (e : Thrown)
  | reserve (quotas : BlobQuotas)
  | store (etag : Text)
  | index (quotas : BlobQuotas) (now : ℕ)
  | plain

/-- A put that failed, with what was readable under its key before and after, and whether no other
    call changed the key in between. -/
structure FailedPut where
  error : Thrown
  before : Option (BlobRow × Bytes)
  after : Option (BlobRow × Bytes)
  alone : Bool

inductive Ret where
  | badKey (e : Thrown)
  | put (result : Except FailedPut BlobRow)
  | get (result : Except Thrown (Option (BlobRow × Bytes)))
  | delete (result : Except Thrown (Option BlobRow))

section
variable (userId : Text) (maxBytes : ℕ) (sha256 : Bytes → Text)

/-- The checks of `put` after the one of the key. -/
def checkUpload (key : Text) (input : PutInput) : Except Thrown (ContentType × Obj Text) := do
  let contentType ← resolveContentType key input.contentType
  let metadata ← normalizeMetadata input.metadata
  if maxBytes < input.body.length then
    .error (.kody "blob_too_large" ("Blob is " ++ natText input.body.length ++
      " bytes; the server accepts at most " ++ natText maxBytes ++ " (KODY_BLOB_MAX_BYTES).") 413)
  else .ok (contentType, metadata)

/-- A put that failed in the state `s`, having changed its key `own` times before. -/
def Upload.failed (u : Upload) (own : ℕ) (s s' : BlobState) (e : Thrown) : FailedPut :=
  ⟨e, u.seen, s'.readable userId u.key, decide (s.changes u.key = u.mark + own)⟩

/-- `put` up to the answer of `blobReserve`. -/
def beginPut (s : BlobState) (input : PutInput) (quotas : Except Thrown BlobQuotas) : Frame ⊕ Ret :=
  match normalizeBlobKey input.key with
  | .error e => .inr (.badKey e)
  | .ok key =>
    let seen := s.readable userId key
    let reserved := do
      let checked ← checkUpload maxBytes key input
      let quotas ← quotas
      let previous ← assertBlobQuota s.index quotas key input.body.length
      .ok (checked, previous)
    match reserved with
    | .error e => .inr (.put (.error ⟨e, seen, seen, true⟩))
    | .ok ((contentType, metadata), previous) =>
      .inl (.storing ⟨key, contentType, metadata, input.body, input.packageName, previous, seen,
        s.changes key⟩)

/-- What `blobIndexPut` is called with; a type that is not a text cannot be bound to its column. -/
def Upload.indexInput (u : Upload) (etag : Text) : Option BlobIndexInput :=
  match u.contentType with
  | .inherited _ => none
  | .text contentType => some
    { key := u.key, size := u.body.length, contentType := contentType, sha256 := sha256 u.body
      etag := etag, packageName := u.packageName, metadata := u.metadata }

/-- The `catch` around `blobIndexPut`. -/
def Upload.catchIndex (u : Upload) (s : BlobState) (e : Thrown) : Frame ⊕ Ret :=
  if u.previous.isNone then .inl (.undoing u e) else .inr (.put (.error (u.failed userId 1 s s e)))

/-- The call of `blobIndexPut`, and what comes of its answer. -/
def Upload.index (u : Upload) (s : BlobState) (quotas : BlobQuotas) (now : ℕ) (input : BlobIndexInput) :
    BlobState × (Frame ⊕ Ret) :=
  match blobIndexPut quotas now input s.index with
  | .ok (row, written) => (s.putRow u.key written, .inr (.put (.ok row)))
  | .error e => (s, u.catchIndex userId s e)

/-- `get` up to the answer of `blobIndexGet`. -/
def beginGet (s : BlobState) (key : Json) (read : Except Thrown Unit) : Frame ⊕ Ret :=
  match normalizeBlobKey key, read with
  | .error e, _ => .inr (.badKey e)
  | .ok _, .error e => .inr (.get (.error e))
  | .ok key, .ok () =>
    match s.index.find? key with
    | none => .inr (.get (.ok none))
    | some record => .inl (.reading key record)

/-- `delete` up to the answer of `blobIndexDelete`. -/
def beginDelete (s : BlobState) (key : Json) (write : Except Thrown Unit) : BlobState × (Frame ⊕ Ret) :=
  match normalizeBlobKey key, write with
  | .error e, _ => (s, .inr (.badKey e))
  | .ok _, .error e => (s, .inr (.delete (.error e)))
  | .ok key, .ok () => (s.deleteRow key, .inl (.deleting key (s.index.find? key)))

/-- One segment of a call. -/
def resume (s : BlobState) (f : Frame) (i : Input) : Option (BlobState × (Frame ⊕ Ret)) :=
  match f, i with
  | .fresh (.put input), .reserve quotas => some (s, beginPut userId maxBytes s input (.ok quotas))
  | .fresh (.put input), .fails e => some (s, beginPut userId maxBytes s input (.error e))
  | .storing u, .store etag =>
    some (s.putObject userId u.key u.body, .inl (.indexing u etag (s.object userId u.key)))
  | .storing u, .fails e => some (s, .inr (.put (.error (u.failed userId 0 s s e))))
  | .indexing u etag _, .index quotas now =>
    match u.indexInput sha256 etag with
    | none => none
    | some input => some (u.index userId s quotas now input)
  | .indexing u _ _, .fails e => some (s, u.catchIndex userId s e)
  | .undoing u error, .plain =>
    let s' := s.deleteObject userId u.key
    some (s', .inr (.put (.error (u.failed userId 1 s s' error))))
  | .undoing u error, .fails _ => some (s, .inr (.put (.error (u.failed userId 1 s s error))))
  | .fresh (.get key), .plain => some (s, beginGet s key (.ok ()))
  | .fresh (.get key), .fails e => some (s, beginGet s key (.error e))
  | .reading key record, .plain =>
    match s.object userId key with
    | none => some (s, .inl (.dropping key))
    | some body => some (s, .inr (.get (.ok (some (record, body)))))
  | .reading _ _, .fails e => some (s, .inr (.get (.error e)))
  | .dropping key, .plain => some (s.deleteRow key, .inr (.get (.ok none)))
  | .dropping _, .fails e => some (s, .inr (.get (.error e)))
  | .fresh (.delete key), .plain => some (beginDelete s key (.ok ()))
  | .fresh (.delete key), .fails e => some (beginDelete s key (.error e))
  | .deleting key record, .plain => some (s.deleteObject userId key, .inr (.delete (.ok record)))
  | .deleting _ _, .fails e => some (s, .inr (.delete (.error e)))
  | _, _ => none

/-- The calls on the blobs of one user. -/
def blobCalls : Coop where
  Shared := BlobState
  Call := Call
  Frame := Frame
  Input := Input
  Ret := Ret
  start := .fresh
  resume := resume userId maxBytes sha256

end

/-! ### What an operation changes -/

section
variable {userId : Text} {s s' : BlobState}

/-- The row, the object and the count of a key are the same in both states. -/
structure SameAt (userId : Text) (s s' : BlobState) (k : Text) : Prop where
  row : s'.index.find? k = s.index.find? k
  object : s'.object userId k = s.object userId k
  changes : s'.changes k = s.changes k

/-- **One operation** on a key: the other keys are left alone, and a change of its own is counted. -/
structure Touches (userId : Text) (s s' : BlobState) (key : Text) : Prop where
  others : ∀ k, k ≠ key → SameAt userId s s' k
  own : SameAt userId s s' key ∨ s'.changes key = s.changes key + 1

theorem SameAt.refl (s : BlobState) (k : Text) : SameAt userId s s k := ⟨rfl, rfl, rfl⟩

theorem Touches.refl (s : BlobState) (key : Text) : Touches userId s s key :=
  ⟨fun k _ => .refl s k, .inl (.refl s key)⟩

theorem changed_self (s : BlobState) (key : Text) : s.changed key key = s.changes key + 1 :=
  Function.update_self ..

theorem changed_of_ne (s : BlobState) {key k : Text} (h : k ≠ key) : s.changed key k = s.changes k :=
  Function.update_of_ne h ..

/-- The object of every key after one was stored or removed. -/
theorem object_update (s : BlobState) (key k : Text) (body : Option Bytes) :
    Function.update s.objects (objectKeyFor userId key) body (objectKeyFor userId k) =
      if k = key then body else s.object userId k := by
  by_cases hk : k = key
  · rw [if_pos hk, hk, Function.update_self]
  · have hne : objectKeyFor userId k ≠ objectKeyFor userId key := by
      intro heq
      exact hk ((objectKeyFor_injective userId).mp heq)
    rw [if_neg hk, Function.update_of_ne hne]
    rfl

theorem object_putObject (s : BlobState) (key k : Text) (body : Bytes) :
    (s.putObject userId key body).object userId k =
      if k = key then some body else s.object userId k :=
  object_update s key k (some body)

theorem touches_putObject (s : BlobState) (key : Text) (body : Bytes) :
    Touches userId s (s.putObject userId key body) key := by
  refine ⟨fun k hk => ⟨rfl, ?_, changed_of_ne s hk⟩, .inr (changed_self s key)⟩
  rw [object_putObject, if_neg hk]

theorem touches_deleteObject (s : BlobState) (key : Text) :
    Touches userId s (s.deleteObject userId key) key := by
  unfold BlobState.deleteObject
  split
  · exact .refl s key
  · refine ⟨fun k hk => ⟨rfl, ?_, changed_of_ne s hk⟩, .inr (changed_self s key)⟩
    exact (object_update s key k none).trans (if_neg hk)

theorem touches_putRow (s : BlobState) {key : Text} {index : Rows BlobRow.key}
    (h : ∀ k, k ≠ key → index.find? k = s.index.find? k) :
    Touches userId s (s.putRow key index) key :=
  ⟨fun k hk => ⟨h k hk, rfl, changed_of_ne s hk⟩, .inr (changed_self s key)⟩

theorem touches_deleteRow (s : BlobState) (key : Text) :
    Touches userId s (s.deleteRow key) key := by
  unfold BlobState.deleteRow
  split
  · exact .refl s key
  · refine ⟨fun k hk => ⟨?_, rfl, changed_of_ne s hk⟩, .inr (changed_self s key)⟩
    show (blobIndexDelete key s.index).2.find? k = _
    rw [find?_blobIndexDelete, if_neg hk]

/-- The row of a key is gone after it was deleted. -/
theorem find?_deleteRow (s : BlobState) (key : Text) : (s.deleteRow key).index.find? key = none := by
  unfold BlobState.deleteRow
  split
  · rename_i hnone
    exact Option.isNone_iff_eq_none.mp hnone
  · show (blobIndexDelete key s.index).2.find? key = none
    rw [find?_blobIndexDelete, if_pos rfl]

/-- The rows are not touched when an object is removed. -/
theorem find?_deleteObject (s : BlobState) (key k : Text) :
    (s.deleteObject userId key).index.find? k = s.index.find? k := by
  unfold BlobState.deleteObject
  split <;> rfl

end

/-! ### What a call in flight knows -/

section
variable (userId : Text) (sha256 : Bytes → Text)

/-- The row of a key describes its object. -/
def Agrees (s : BlobState) (k : Text) : Prop :=
  ∀ row, s.index.find? k = some row →
    ∃ body, s.object userId k = some body ∧ body.length = row.size ∧ sha256 body = row.sha256

/-- A put that has changed its key `own` times: `now` is what it found as long as no other call
    changed the key. -/
structure Upload.Knows (s : BlobState) (u : Upload) (own : ℕ) (now : Option (BlobRow × Bytes)) :
    Prop where
  mark : u.mark + own ≤ s.changes u.key
  seen : s.changes u.key = u.mark + own → u.seen = now
  first : u.previous = none → u.seen = none

/-- What a frame knows about the state. -/
def FrameOk (s : BlobState) : Frame → Prop
  | .storing u => u.Knows s 0 (s.readable userId u.key)
  | .indexing u _ replaced => u.Knows s 1 (Option.map₂ Prod.mk (s.index.find? u.key) replaced) ∧
      (s.changes u.key = u.mark + 1 → s.object userId u.key = some u.body)
  | .undoing u _ => u.seen = none
  | _ => True

/-- **A failed put leaves the blob readable that it found**, unless another call changed the key. -/
def Ret.KeepsBlob : Ret → Prop
  | .put (.error f) => f.alone = true → ∀ old, f.before = some old → f.after = some old
  | _ => True

/-- The key and the bytes of a put that has still to write its row. -/
def Frame.pending : Frame → Option (Text × Bytes)
  | .indexing u _ _ => some (u.key, u.body)
  | _ => none

end

section
variable {userId : Text} {sha256 : Bytes → Text} {s s' : BlobState}

theorem Agrees.same {k : Text} (h : Agrees userId sha256 s k) (hsame : SameAt userId s s' k) :
    Agrees userId sha256 s' k := by
  intro row hrow
  rw [hsame.row] at hrow
  rw [hsame.object]
  exact h row hrow

/-- A key without a row has nothing to agree with. -/
theorem Agrees.of_none {k : Text} (h : s.index.find? k = none) : Agrees userId sha256 s k := by
  intro row hrow
  exact absurd (h.symm.trans hrow) (by simp)

theorem SameAt.readable {k : Text} (h : SameAt userId s s' k) :
    s'.readable userId k = s.readable userId k := by
  unfold BlobState.readable
  rw [h.row, h.object]

/-- What a put knows outlives the operations of the others. -/
theorem Upload.Knows.touched {u : Upload} {own : ℕ} {now now' : Option (BlobRow × Bytes)}
    (h : u.Knows s own now)
    (ht : (s'.changes u.key = s.changes u.key ∧ now' = now) ∨
      s'.changes u.key = s.changes u.key + 1) : u.Knows s' own now' := by
  have hmark := h.mark
  refine ⟨?_, ?_, h.first⟩
  · rcases ht with ⟨hcount, -⟩ | hcount
    · omega
    · omega
  · intro heq
    rcases ht with ⟨hcount, hnow⟩ | hcount
    · rw [hnow]
      exact h.seen (hcount ▸ heq)
    · -- the count is beyond what the put did itself
      omega

theorem FrameOk.touched {f : Frame} {key : Text} (h : FrameOk userId s f)
    (ht : Touches userId s s' key) : FrameOk userId s' f := by
  have hkey : ∀ k, SameAt userId s s' k ∨ s'.changes k = s.changes k + 1 := by
    intro k
    by_cases hk : k = key
    · exact hk ▸ ht.own
    · exact .inl (ht.others k hk)
  cases f with
  | storing u =>
    apply Upload.Knows.touched h
    rcases hkey u.key with hsame | hcount
    · exact .inl ⟨hsame.changes, hsame.readable⟩
    · exact .inr hcount
  | indexing u etag replaced =>
    obtain ⟨hknows, hown⟩ := h
    constructor
    · apply hknows.touched
      rcases hkey u.key with hsame | hcount
      · exact .inl ⟨hsame.changes, by rw [hsame.row]⟩
      · exact .inr hcount
    · intro heq
      rcases hkey u.key with hsame | hcount
      · rw [hsame.object]
        exact hown (hsame.changes ▸ heq)
      · have hmark := hknows.mark
        omega
  | undoing u error => exact h
  | fresh c => trivial
  | reading key record => trivial
  | dropping key => trivial
  | deleting key record => trivial

/-- A put that goes on to write its row knows the object: it is its own. -/
theorem Upload.Knows.stored {u : Upload} (h : u.Knows s 0 (s.readable userId u.key)) (etag : Text) :
    FrameOk userId (s.putObject userId u.key u.body) (.indexing u etag (s.object userId u.key)) := by
  have hcount : (s.putObject userId u.key u.body).changes u.key = s.changes u.key + 1 :=
    changed_self s u.key
  have hmark := h.mark
  refine ⟨⟨by omega, ?_, h.first⟩, ?_⟩
  · intro heq
    exact h.seen (by omega)
  · intro _
    rw [object_putObject, if_pos rfl]

/-- A put that fails before it stored anything. -/
theorem Upload.Knows.keeps_unstored {u : Upload} (h : u.Knows s 0 (s.readable userId u.key))
    (e : Thrown) : (Ret.put (.error (u.failed userId 0 s s e))).KeepsBlob := by
  intro halone old hold
  have hcount : s.changes u.key = u.mark + 0 := of_decide_eq_true halone
  exact (h.seen hcount).symm.trans hold

/-- A put that wrote what was there, or found nothing indexed, leaves it when it fails. -/
theorem FrameOk.keeps_stored {u : Upload} {etag : Text} {replaced : Option Bytes}
    (h : FrameOk userId s (.indexing u etag replaced))
    (hcalm : s.index.find? u.key = none ∨ replaced = some u.body ∨ s.changes u.key ≠ u.mark + 1)
    (e : Thrown) : (Ret.put (.error (u.failed userId 1 s s e))).KeepsBlob := by
  obtain ⟨hknows, hown⟩ := h
  intro halone old hold
  have hcount : s.changes u.key = u.mark + 1 := of_decide_eq_true halone
  have hseen : Option.map₂ Prod.mk (s.index.find? u.key) replaced = some old :=
    (hknows.seen hcount).symm.trans hold
  rcases hcalm with hnone | hreplaced | hother
  · rw [hnone, Option.map₂_none_left] at hseen
    cases hseen
  · show s.readable userId u.key = some old
    rw [BlobState.readable, hown hcount, ← hreplaced]
    exact hseen
  · exact absurd hcount hother

/-- A put that found nothing has nothing to keep. -/
theorem keeps_nothing {u : Upload} (h : u.seen = none) (own : ℕ) (s s' : BlobState) (e : Thrown) :
    (Ret.put (.error (u.failed userId own s s' e))).KeepsBlob := by
  intro _ old hold
  exact absurd (h.symm.trans hold) (by simp)

end

/-! ### The condition -/

section
variable {userId : Text} {maxBytes : ℕ} {sha256 : Bytes → Text}
variable (g : Coop.Config (blobCalls userId maxBytes sha256))

/-- The object of a key is the one of a put that has still to write its row. -/
def ClaimedBy (t : ℕ) (k : Text) : Prop :=
  ∃ c f body, g.pool t = some (c, f) ∧ Frame.pending f = some (k, body) ∧
    g.shared.object userId k = some body

/-- The object of a key is the one of another such put. -/
def ClaimedByOther (t : ℕ) (k : Text) : Prop := ∃ w, w ≠ t ∧ ClaimedBy g w k

/-- **A put may fail to write its row** where the key has no row, or where its object does no harm:
    the row agrees with what is stored or another put will replace it, and the put wrote the very
    bytes that it replaced unless others have changed the key since it began. -/
def MayLose (t : ℕ) (u : Upload) (replaced : Option Bytes) : Prop :=
  g.shared.index.find? u.key = none ∨
    (Agrees userId sha256 g.shared u.key ∨ ClaimedByOther g t u.key) ∧
      (replaced = some u.body ∨ g.shared.changes u.key ≠ u.mark + 1)

/-- **A put may write its row** while its object is still the one that it stored, or is the one of
    another put that has still to write its row. -/
def MayIndex (t : ℕ) (u : Upload) : Prop :=
  g.shared.object userId u.key = some u.body ∨ ClaimedByOther g t u.key

/-- The condition on one segment.  An object is removed only while its key has no row. -/
def SegmentCalm (t : ℕ) (f : Frame) (i : Input) : Prop :=
  match f, i with
  | .indexing u _ replaced, .index quotas _ =>
    match assertBlobQuota g.shared.index quotas u.key u.body.length with
    | .ok _ => MayIndex g t u
    | .error _ => MayLose g t u replaced
  | .indexing u _ replaced, .fails _ => MayLose g t u replaced
  | .undoing u _, .plain => g.shared.index.find? u.key = none
  | .deleting key _, .plain => g.shared.index.find? key = none
  | _, _ => True

/-- **The condition** on one step of the system. -/
def WritesCalm (e : Coop.Event (blobCalls userId maxBytes sha256)) : Prop :=
  ∀ t i c f, e = .resume t i → g.pool t = some (c, f) → SegmentCalm g t f i

end

/-! ### What a segment keeps -/

section
variable {userId : Text} {maxBytes : ℕ} {sha256 : Bytes → Text}
variable {g : Coop.Config (blobCalls userId maxBytes sha256)}

/-- How a key stands after a segment of thread `t`: it agrees, it is about to, or it stands as it
    did and the segment had no claim on it. -/
inductive Stands (g : Coop.Config (blobCalls userId maxBytes sha256)) (t : ℕ) (f : Frame)
    (s' : BlobState) (out : Frame ⊕ Ret) (k : Text) : Prop where
  | agrees : Agrees userId sha256 s' k → Stands g t f s' out k
  | claims {f' : Frame} {body : Bytes} : out = .inl f' → f'.pending = some (k, body) →
      s'.object userId k = some body → Stands g t f s' out k
  | other : ClaimedByOther g t k → s'.object userId k = g.shared.object userId k →
      Stands g t f s' out k
  | same : SameAt userId g.shared s' k → (∀ body, f.pending ≠ some (k, body)) → Stands g t f s' out k

/-- What a segment has to do for the invariant. -/
structure KeepsInv (g : Coop.Config (blobCalls userId maxBytes sha256)) (t : ℕ) (f : Frame)
    (s' : BlobState) (out : Frame ⊕ Ret) : Prop where
  touches : ∃ key, Touches userId g.shared s' key
  stands : ∀ k, Stands g t f s' out k
  frame : ∀ f', out = .inl f' → FrameOk userId s' f'
  returned : ∀ r, out = .inr r → Ret.KeepsBlob r

variable {t : ℕ} {f : Frame} {s' : BlobState} {out : Frame ⊕ Ret}

/-- A segment that only reads. -/
theorem KeepsInv.of_read (hpending : f.pending = none)
    (hframe : ∀ f', out = .inl f' → FrameOk userId g.shared f')
    (hreturn : ∀ r, out = .inr r → Ret.KeepsBlob r) : KeepsInv g t f g.shared out := by
  refine ⟨⟨[], .refl _ _⟩, ?_, hframe, hreturn⟩
  intro k
  apply Stands.same (.refl _ k)
  intro body hbody
  exact absurd (hpending.symm.trans hbody) (by simp)

/-- A segment that removes a row, or an object whose key has none. -/
theorem KeepsInv.of_removal {key : Text} (hpending : f.pending = none)
    (htouches : Touches userId g.shared s' key) (hnone : s'.index.find? key = none)
    (hframe : ∀ f', out = .inl f' → FrameOk userId s' f')
    (hreturn : ∀ r, out = .inr r → Ret.KeepsBlob r) : KeepsInv g t f s' out := by
  refine ⟨⟨key, htouches⟩, ?_, hframe, hreturn⟩
  intro k
  by_cases hk : k = key
  · exact .agrees (.of_none (hk ▸ hnone))
  · apply Stands.same (htouches.others k hk)
    intro body hbody
    exact absurd (hpending.symm.trans hbody) (by simp)

/-- **The object is stored**: the put has a claim on its key. -/
theorem keeps_store {u : Upload} (etag : Text)
    (hknows : FrameOk userId g.shared (.storing u)) :
    KeepsInv g t (.storing u) (g.shared.putObject userId u.key u.body)
      (.inl (.indexing u etag (g.shared.object userId u.key))) := by
  have htouches : Touches userId g.shared (g.shared.putObject userId u.key u.body) u.key :=
    touches_putObject ..
  refine ⟨⟨u.key, htouches⟩, ?_, ?_, ?_⟩
  · intro k
    by_cases hk : k = u.key
    · subst hk
      exact .claims rfl rfl ((object_putObject g.shared u.key u.key u.body).trans (if_pos rfl))
    · apply Stands.same (htouches.others k hk)
      intro body hbody
      cases hbody
  · intro f' hout
    cases hout
    exact Upload.Knows.stored hknows etag
  · intro r hout
    cases hout

/-- **The row is written**: it describes the object, or another put will write its own. -/
theorem keeps_index {u : Upload} {etag : Text} {replaced : Option Bytes} {row : BlobRow}
    {written : Rows BlobRow.key} (hcalm : MayIndex g t u)
    (hrow : ∃ row, written.find? u.key = some row ∧ row.size = u.body.length ∧
      row.sha256 = sha256 u.body)
    (hothers : ∀ k, k ≠ u.key → written.find? k = g.shared.index.find? k) :
    KeepsInv g t (.indexing u etag replaced) (g.shared.putRow u.key written)
      (.inr (.put (.ok row))) := by
  have htouches : Touches userId g.shared (g.shared.putRow u.key written) u.key :=
    touches_putRow g.shared hothers
  refine ⟨⟨u.key, htouches⟩, ?_, ?_, ?_⟩
  · intro k
    by_cases hk : k = u.key
    · subst hk
      rcases hcalm with hown | hother
      · obtain ⟨row, hfind, hsize, hsha⟩ := hrow
        apply Stands.agrees
        intro row' hrow'
        cases Option.some.inj (hfind.symm.trans hrow')
        exact ⟨u.body, hown, hsize.symm, hsha.symm⟩
      · exact .other hother rfl
    · apply Stands.same (htouches.others k hk)
      intro body hbody
      exact hk (congrArg Prod.fst (Option.some.inj hbody)).symm
  · intro f' hout
    cases hout
  · intro r hout
    cases hout
    trivial

/-- **The row is refused**: the key stands as before, without the claim of the put. -/
theorem keeps_lose {u : Upload} {etag : Text} {replaced : Option Bytes} {e : Thrown}
    (hknows : FrameOk userId g.shared (.indexing u etag replaced)) (hcalm : MayLose g t u replaced) :
    KeepsInv g t (.indexing u etag replaced) g.shared (u.catchIndex userId g.shared e) := by
  refine ⟨⟨[], .refl _ _⟩, ?_, ?_, ?_⟩
  · intro k
    by_cases hk : k = u.key
    · subst hk
      rcases hcalm with hnone | ⟨hagrees | hother, -⟩
      · exact .agrees (.of_none hnone)
      · exact .agrees hagrees
      · exact .other hother rfl
    · apply Stands.same (.refl _ k)
      intro body hbody
      exact hk (congrArg Prod.fst (Option.some.inj hbody)).symm
  · intro f' hout
    unfold Upload.catchIndex at hout
    split at hout
    · rename_i hfirst
      cases hout
      exact hknows.1.first (Option.isNone_iff_eq_none.mp hfirst)
    · cases hout
  · intro r hout
    unfold Upload.catchIndex at hout
    split at hout
    · cases hout
    cases hout
    apply hknows.keeps_stored
    rcases hcalm with hnone | ⟨-, hsame⟩
    · exact .inl hnone
    · exact .inr hsame

/-- A put that is reserved knows what is readable. -/
theorem keeps_beginPut (input : PutInput) (quotas : Except Thrown BlobQuotas) :
    KeepsInv g t (.fresh (.put input)) g.shared (beginPut userId maxBytes g.shared input quotas) := by
  apply KeepsInv.of_read rfl
  · intro f' hout
    unfold beginPut at hout
    split at hout
    · cases hout
    rename_i key hkey
    dsimp only at hout
    split at hout
    · cases hout
    rename_i contentType metadata previous hreserved
    obtain ⟨checked, -, hreserved⟩ := bind_eq_ok hreserved
    obtain ⟨q, -, hreserved⟩ := bind_eq_ok hreserved
    obtain ⟨existing, hquota, hreserved⟩ := bind_eq_ok hreserved
    cases hreserved
    cases hout
    refine ⟨le_rfl, fun _ => rfl, ?_⟩
    intro hfirst
    have hnone : g.shared.index.find? key = none :=
      (assertBlobQuota_eq_ok hquota).symm.trans hfirst
    show Option.map₂ Prod.mk (g.shared.index.find? key) _ = none
    rw [hnone, Option.map₂_none_left]
  · intro r hout
    unfold beginPut at hout
    split at hout
    · cases hout
      trivial
    · dsimp only at hout
      split at hout
      · cases hout
        exact fun _ _ hold => hold
      · cases hout

theorem keeps_beginGet (key : Json) (read : Except Thrown Unit) :
    KeepsInv g t (.fresh (.get key)) g.shared (beginGet g.shared key read) := by
  apply KeepsInv.of_read rfl
  · intro f' hout
    unfold beginGet at hout
    split at hout
    · cases hout
    · cases hout
    · split at hout
      · cases hout
      · cases hout
        trivial
  · intro r hout
    unfold beginGet at hout
    split at hout
    · cases hout
      trivial
    · cases hout
      trivial
    · split at hout
      · cases hout
        trivial
      · cases hout

theorem keeps_beginDelete (key : Json) (write : Except Thrown Unit) :
    KeepsInv g t (.fresh (.delete key)) (beginDelete g.shared key write).1
      (beginDelete g.shared key write).2 := by
  have hreturns : ∀ r : Ret, r.KeepsBlob →
      KeepsInv g t (.fresh (.delete key)) g.shared (.inr r) := by
    intro r hr
    apply KeepsInv.of_read rfl
    · intro f' hout
      cases hout
    · intro r' hout
      cases hout
      exact hr
  unfold beginDelete
  split
  · exact hreturns _ trivial
  · exact hreturns _ trivial
  · rename_i key hkey
    refine KeepsInv.of_removal rfl (touches_deleteRow g.shared key) (find?_deleteRow _ _) ?_ ?_
    · intro f' hout
      cases hout
      trivial
    · intro r hout
      cases hout

/-- A segment that only returns. -/
theorem keeps_return {r : Ret} (hpending : f.pending = none) (hr : r.KeepsBlob) :
    KeepsInv g t f g.shared (.inr r) := by
  apply KeepsInv.of_read hpending
  · intro f' hout
    cases hout
  · intro r' hout
    cases hout
    exact hr

/-- A segment that removes the object of a key without a row, and returns. -/
theorem keeps_deleteObject {key : Text} {r : Ret} (hpending : f.pending = none)
    (hnone : g.shared.index.find? key = none) (hr : r.KeepsBlob) :
    KeepsInv g t f (g.shared.deleteObject userId key) (.inr r) := by
  have hgone : (g.shared.deleteObject userId key).index.find? key = none :=
    (find?_deleteObject g.shared key key).trans hnone
  refine KeepsInv.of_removal hpending (touches_deleteObject g.shared key) hgone ?_ ?_
  · intro f' hout
    cases hout
  · intro r' hout
    cases hout
    exact hr

/-- **One segment** that meets the condition keeps the invariant. -/
theorem resume_keeps {i : Input}
    (h : resume userId maxBytes sha256 g.shared f i = some (s', out))
    (hknows : FrameOk userId g.shared f) (hcalm : SegmentCalm g t f i) : KeepsInv g t f s' out := by
  cases f with
  | fresh c =>
    cases c with
    | put input =>
      cases i with
      | fails e =>
        cases h
        exact keeps_beginPut input (.error e)
      | reserve quotas =>
        cases h
        exact keeps_beginPut input (.ok quotas)
      | _ => cases h
    | get key =>
      cases i with
      | fails e =>
        cases h
        exact keeps_beginGet key (.error e)
      | plain =>
        cases h
        exact keeps_beginGet key (.ok ())
      | _ => cases h
    | delete key =>
      cases i with
      | fails e =>
        have hkeeps := keeps_beginDelete (g := g) (t := t) key (.error e)
        have hpair : beginDelete g.shared key (.error e) = (s', out) := Option.some.inj h
        rw [hpair] at hkeeps
        exact hkeeps
      | plain =>
        have hkeeps := keeps_beginDelete (g := g) (t := t) key (.ok ())
        have hpair : beginDelete g.shared key (.ok ()) = (s', out) := Option.some.inj h
        rw [hpair] at hkeeps
        exact hkeeps
      | _ => cases h
  | storing u =>
    cases i with
    | fails e =>
      cases h
      exact keeps_return rfl (Upload.Knows.keeps_unstored hknows e)
    | store etag =>
      cases h
      exact keeps_store etag hknows
    | _ => cases h
  | indexing u etag replaced =>
    cases i with
    | fails e =>
      cases h
      exact keeps_lose hknows hcalm
    | index quotas now =>
      simp only [resume] at h
      split at h
      · cases h
      rename_i input hinput
      -- the columns are those of the put
      have hcolumns : input.key = u.key ∧ input.size = u.body.length ∧
          input.sha256 = sha256 u.body := by
        unfold Upload.indexInput at hinput
        split at hinput
        · cases hinput
        cases hinput
        exact ⟨rfl, rfl, rfl⟩
      obtain ⟨hkey, hsize, hsha⟩ := hcolumns
      have hpair : u.index userId g.shared quotas now input = (s', out) := Option.some.inj h
      unfold Upload.index at hpair
      split at hpair
      · rename_i row written hput
        cases hpair
        obtain ⟨hrow, hothers⟩ := find?_blobIndexPut hput
        obtain ⟨existing, hquota⟩ := blobIndexPut_ok_iff.mp ⟨_, hput⟩
        rw [hkey, hsize] at hquota
        rw [hkey, hsize, hsha] at hrow
        rw [hkey] at hothers
        simp only [SegmentCalm, hquota] at hcalm
        exact keeps_index hcalm hrow hothers
      · rename_i e hput
        cases hpair
        simp only [SegmentCalm] at hcalm
        split at hcalm
        · rename_i existing hquota
          rw [← hkey, ← hsize] at hquota
          obtain ⟨written, hwritten⟩ := blobIndexPut_ok_iff.mpr ⟨existing, hquota⟩
          exact absurd (hput.symm.trans hwritten) (by simp)
        · exact keeps_lose hknows hcalm
    | _ => cases h
  | undoing u error =>
    cases i with
    | fails e =>
      cases h
      exact keeps_return rfl (keeps_nothing hknows 1 _ _ error)
    | plain =>
      cases h
      exact keeps_deleteObject rfl hcalm (keeps_nothing hknows 1 _ _ error)
    | _ => cases h
  | reading key record =>
    cases i with
    | fails e =>
      cases h
      exact keeps_return rfl trivial
    | plain =>
      simp only [resume] at h
      split at h
      · cases h
        apply KeepsInv.of_read rfl
        · intro f' hout
          cases hout
          trivial
        · intro r hout
          cases hout
      · cases h
        exact keeps_return rfl trivial
    | _ => cases h
  | dropping key =>
    cases i with
    | fails e =>
      cases h
      exact keeps_return rfl trivial
    | plain =>
      cases h
      refine KeepsInv.of_removal rfl (touches_deleteRow g.shared key) (find?_deleteRow _ _) ?_ ?_
      · intro f' hout
        cases hout
      · intro r hout
        cases hout
        trivial
    | _ => cases h
  | deleting key record =>
    cases i with
    | fails e =>
      cases h
      exact keeps_return rfl trivial
    | plain =>
      cases h
      exact keeps_deleteObject rfl hcalm trivial
    | _ => cases h

end

/-! ### Every run of the system -/

section
variable {userId : Text} {maxBytes : ℕ} {sha256 : Bytes → Text}

/-- What holds over every run under the condition. -/
structure BlobInv (g : Coop.Config (blobCalls userId maxBytes sha256)) : Prop where
  /-- A row agrees with its object, or the put of the object has still to write its row. -/
  agrees : ∀ k, Agrees userId sha256 g.shared k ∨ ∃ t, ClaimedBy g t k
  /-- The calls in flight know the state. -/
  frames : ∀ t c f, g.pool t = some (c, f) → FrameOk userId g.shared f
  /-- The puts that failed kept what they found. -/
  log : ∀ c r, (c, r) ∈ g.log → Ret.KeepsBlob r

variable {g g' : Coop.Config (blobCalls userId maxBytes sha256)}

/-- A claim of a thread that did not run stays one as long as the object does. -/
theorem ClaimedBy.ran {t w : ℕ} {c : Call} {f : Frame} {i : Input} {out : Frame ⊕ Ret} {k : Text}
    (h : ClaimedBy g w k) (hran : Coop.Ran g g' t c f i out) (hw : w ≠ t)
    (hobject : g'.shared.object userId k = g.shared.object userId k) : ClaimedBy g' w k := by
  obtain ⟨c', f', body, hpool, hpending, hbody⟩ := h
  exact ⟨c', f', body, (hran.others w hw).trans hpool, hpending, hobject.trans hbody⟩

theorem BlobInv.ran (h : BlobInv g) {t : ℕ} {c : Call} {f : Frame} {i : Input}
    {out : Frame ⊕ Ret} (hran : Coop.Ran g g' t c f i out)
    (hkeeps : KeepsInv g t f g'.shared out) : BlobInv g' := by
  obtain ⟨key, htouches⟩ := hkeeps.touches
  refine ⟨?_, ?_, ?_⟩
  · intro k
    cases hkeeps.stands k with
    | agrees hagrees => exact .inl hagrees
    | claims hout hpending hobject =>
      rcases hran.own with ⟨f₁, hout₁, hpool, -⟩ | ⟨r, hout₁, -, -⟩
      · cases hout.symm.trans hout₁
        exact .inr ⟨t, c, _, _, hpool, hpending, hobject⟩
      · cases hout.symm.trans hout₁
    | other hother hobject =>
      obtain ⟨w, hw, hclaim⟩ := hother
      exact .inr ⟨w, hclaim.ran hran hw hobject⟩
    | same hsame hfree =>
      rcases h.agrees k with hagrees | ⟨w, hclaim⟩
      · exact .inl (hagrees.same hsame)
      · right
        by_cases hw : w = t
        · -- the claim would be the one of the segment
          subst hw
          obtain ⟨c', f', body, hpool, hpending, -⟩ := hclaim
          obtain ⟨-, rfl⟩ := Prod.mk.inj (Option.some.inj (hran.before.symm.trans hpool))
          exact absurd hpending (hfree body)
        · exact ⟨w, hclaim.ran hran hw hsame.object⟩
  · intro u c' f' hu
    rcases hran.pool u c' f' hu with ⟨-, hu⟩ | ⟨-, -, hout⟩
    · exact (h.frames u c' f' hu).touched htouches
    · exact hkeeps.frame f' hout
  · intro c' r hr
    rcases hran.log (c', r) hr with hold | ⟨-, hout⟩
    · exact h.log c' r hold
    · exact hkeeps.returned r hout

/-- **One step.** Under the condition every step keeps the invariant. -/
theorem blobInv_step {e : Coop.Event (blobCalls userId maxBytes sha256)} (h : BlobInv g)
    (hcalm : WritesCalm g e) (hstep : Coop.step g e = some g') : BlobInv g' := by
  rcases Coop.step_ran hstep with ⟨t, c, rfl, hfree, rfl⟩ | ⟨t, i, c, f, out, rfl, hran⟩
  · refine ⟨?_, ?_, h.log⟩
    · intro k
      rcases h.agrees k with hagrees | ⟨w, c', f, body, hpool, hpending, hobject⟩
      · exact .inl hagrees
      · -- the thread of a claim is not free
        have hw : w ≠ t := by
          rintro rfl
          exact absurd (hfree.symm.trans hpool) (by simp)
        exact .inr ⟨w, c', f, body, (Function.update_of_ne hw ..).trans hpool, hpending, hobject⟩
    · intro u c' f hu
      rcases Coop.pool_update_cases hu with ⟨-, heq⟩ | ⟨-, hu⟩
      · obtain ⟨-, rfl⟩ := Prod.mk.inj (Option.some.inj heq)
        trivial
      · exact h.frames u c' f hu
  · apply h.ran hran
    apply resume_keeps hran.runs
    · exact h.frames t c f hran.before
    · exact hcalm t i c f rfl hran.before

theorem blobInv_reaches {s₀ : BlobState} (h₀ : ∀ k, Agrees userId sha256 s₀ k)
    (h : Reaches Coop.step WritesCalm (@Coop.idle (blobCalls userId maxBytes sha256) s₀) g) :
    BlobInv g := by
  refine h.invariant BlobInv (fun _ _ _ => blobInv_step) ⟨?_, ?_, ?_⟩
  · exact fun k => .inl (h₀ k)
  · intro t c f hpool
    cases hpool
  · intro c r hr
    cases hr

/-- **The index and the bucket agree.** Over every interleaving under the condition: whenever nothing
    is in flight each indexed key has an object of the indexed size and digest, and every put that
    failed left the blob readable that it found, with its old content. -/
theorem blobs_agree (userId : Text) (maxBytes : ℕ) (sha256 : Bytes → Text) (s₀ : BlobState)
    (g : Coop.Config (blobCalls userId maxBytes sha256)) (h₀ : ∀ k, Agrees userId sha256 s₀ k)
    (h : Reaches Coop.step WritesCalm (@Coop.idle (blobCalls userId maxBytes sha256) s₀) g) :
    ((∀ t, g.pool t = none) → ∀ k, Agrees userId sha256 g.shared k) ∧
      ∀ c r, (c, r) ∈ g.log → Ret.KeepsBlob r := by
  have hinv := blobInv_reaches h₀ h
  refine ⟨?_, hinv.log⟩
  intro hidle k
  rcases hinv.agrees k with hagrees | ⟨t, c, f, body, hpool, -⟩
  · exact hagrees
  · exact absurd ((hidle t).symm.trans hpool) (by simp)

end

/-! ### Sample runs -/

def oldBody : Bytes := utf8Encode "old"
def newerBody : Bytes := utf8Encode "newer"
def reportBody : Bytes := utf8Encode "report"

/-- SHA-256 of the sample bodies. -/
def sampleSha256 (body : Bytes) : Text :=
  if body = oldBody then "cba06b5736faf67e54b07b561eae94395e774c517a7d910a54369e1263ccfbd4"
  else if body = newerBody then "804f51f71254c4081e37e7c887073560f4a6fa6cdad202e9ac67e032c43ed1e1"
  else if body = reportBody then "845e91831319e89c4d656bdb80c278ac09a7230d61e5dfd2e1b1fbb436ac8917"
  else []

abbrev sampleCalls : Coop := blobCalls "u1" 26214400 sampleSha256

/-- A put of thread `t` up to its stored object. -/
def storeOf (t : ℕ) (key : Text) (body : Bytes) : List (Coop.Event sampleCalls) :=
  [.call t (Call.put ⟨.str key, body, none, none, none⟩), .resume t (Input.reserve ⟨0, 10⟩),
    .resume t (Input.store "e")]

/-- It writes its row. -/
def indexOf (t : ℕ) : Coop.Event sampleCalls := .resume t (Input.index ⟨0, 10⟩ 0)

/-- The condition on a segment, as a check that knows no claims. -/
def segmentCheck (g : Coop.Config sampleCalls) (f : Frame) (i : Input) : Bool :=
  match f, i with
  | .indexing u _ _, .index quotas _ =>
    match assertBlobQuota g.shared.index quotas u.key u.body.length with
    | .ok _ => decide (g.shared.object "u1" u.key = some u.body)
    | .error _ => (g.shared.index.find? u.key).isNone
  | .indexing u _ _, .fails _ => (g.shared.index.find? u.key).isNone
  | .undoing u _, .plain => (g.shared.index.find? u.key).isNone
  | .deleting key _, .plain => (g.shared.index.find? key).isNone
  | _, _ => true

/-- The condition on a step, as a check. -/
def calmCheck (g : Coop.Config sampleCalls) (e : Coop.Event sampleCalls) : Bool :=
  match e with
  | .resume t i => (g.pool t).all fun call => segmentCheck g call.2 i
  | .call _ _ => true

theorem segmentCalm_of_check {g : Coop.Config sampleCalls} {t : ℕ} {f : Frame} {i : Input}
    (h : segmentCheck g f i = true) : SegmentCalm g t f i := by
  unfold segmentCheck at h
  unfold SegmentCalm
  split at h
  · split at h
    · rename_i hquota
      rw [hquota]
      exact .inl (of_decide_eq_true h)
    · rename_i hquota
      rw [hquota]
      exact .inl (Option.isNone_iff_eq_none.mp h)
  · exact .inl (Option.isNone_iff_eq_none.mp h)
  · exact Option.isNone_iff_eq_none.mp h
  · exact Option.isNone_iff_eq_none.mp h
  · trivial

theorem writesCalm_of_check {g : Coop.Config sampleCalls} {e : Coop.Event sampleCalls}
    (h : calmCheck g e = true) : WritesCalm g e := by
  rintro t i c f rfl hpool
  apply segmentCalm_of_check
  simpa only [calmCheck, hpool, Option.all_some] using h

theorem empty_agrees (userId : Text) (sha256 : Bytes → Text) (k : Text) :
    Agrees userId sha256 .empty k := .of_none rfl

/-- A blob is written; a put over it meets an error of the bucket while another one begins, which
    then replaces it. -/
def calmRun : List (Coop.Event sampleCalls) :=
  storeOf 0 "k" oldBody ++ [indexOf 0] ++
    [.call 1 (Call.put ⟨.str "k", reportBody, none, none, none⟩), .resume 1 (Input.reserve ⟨0, 10⟩),
      .call 2 (Call.put ⟨.str "k", newerBody, none, none, none⟩), .resume 2 (Input.reserve ⟨0, 10⟩),
      .resume 1 (Input.fails (.kody "blob_store_error" "S3 PUT failed (http_500)." 502)),
      .resume 2 (Input.store "e"), indexOf 2]

/-- The run ends with the newer object and its row. -/
theorem blobs_agree_calmRun : ∃ g : Coop.Config sampleCalls,
    execGuarded Coop.step calmCheck (@Coop.idle sampleCalls .empty) calmRun = some g ∧
    g.shared.object "u1" "k" = some newerBody ∧
    ((∀ t, g.pool t = none) → ∀ k, Agrees "u1" sampleSha256 g.shared k) ∧
      ∀ c r, (c, r) ∈ g.log → Ret.KeepsBlob r := by
  have hrun : (execGuarded Coop.step calmCheck (@Coop.idle sampleCalls .empty) calmRun).map
      (fun g => g.shared.object "u1" "k") = some (some newerBody) := by
    decide +kernel
  obtain ⟨g, hg, hobject⟩ := Option.map_eq_some_iff.mp hrun
  have hreaches := reaches_of_execGuarded (fun _ _ => writesCalm_of_check) hg
  exact ⟨g, hg, hobject, blobs_agree "u1" 26214400 sampleSha256 .empty g (empty_agrees _ _) hreaches⟩

/-- A blob is written; a put over it stores its object, and the blob of another key takes the quota
    before it writes its row. -/
def lostRun : List (Coop.Event sampleCalls) :=
  storeOf 0 "k" oldBody ++ [indexOf 0] ++ storeOf 1 "k" newerBody ++
    storeOf 2 "j" reportBody ++ [indexOf 2] ++ [indexOf 1]

/-- Whether the threads are idle, what the index and the bucket hold under `k`, and the puts that
    failed: whether they were alone, and the content before and after. -/
structure Outcome where
  idle : Bool
  size : Option ℕ
  object : Option Bytes
  failed : List (Bool × Option Bytes × Option Bytes)
  deriving DecidableEq

def contentOf (f : FailedPut) : Bool × Option Bytes × Option Bytes :=
  (f.alone, f.before.map Prod.snd, f.after.map Prod.snd)

def Ret.failedPut : Ret → Option FailedPut
  | .put (.error f) => some f
  | _ => none

theorem Ret.KeepsBlob.of_failedPut {r : Ret} {f : FailedPut} {old : BlobRow × Bytes}
    (h : r.KeepsBlob) (hf : r.failedPut = some f) (halone : f.alone = true)
    (hold : f.before = some old) : f.after = some old := by
  cases r with
  | put result =>
    cases result with
    | error failed =>
      cases hf
      exact h halone old hold
    | ok row => cases hf
  | badKey e => cases hf
  | get result => cases hf
  | delete result => cases hf

def outcomeOf (g : Coop.Config sampleCalls) : Outcome where
  idle := (List.range 3).all fun t => (g.pool t).isNone
  size := (g.shared.index.find? "k").map BlobRow.size
  object := g.shared.object "u1" "k"
  failed := (g.log.filterMap fun entry => Ret.failedPut entry.2).map contentOf

/-- **A lost check.** Ten bytes are allowed and the blob `k` holds three.  A put of five bytes passes
    the check and overwrites the object, a put of six under `j` passes it as well and is indexed, and
    the check of the first one then fails: the row still says three bytes, and the old content is
    gone. -/
theorem lost_recheck : ∃ g : Coop.Config sampleCalls,
    Reaches Coop.step (fun _ _ => True) (@Coop.idle sampleCalls .empty) g ∧
    (∀ t, g.pool t = none) ∧ (¬ ∀ k, Agrees "u1" sampleSha256 g.shared k) ∧
      ¬ ∀ c r, (c, r) ∈ g.log → Ret.KeepsBlob r := by
  have hrun : (exec Coop.step (@Coop.idle sampleCalls .empty) lostRun).map outcomeOf =
      some ⟨true, some 3, some newerBody, [(true, some oldBody, some newerBody)]⟩ := by
    decide +kernel
  obtain ⟨g, hg, houtcome⟩ := Option.map_eq_some_iff.mp hrun
  have hidle := congrArg Outcome.idle houtcome
  have hsize := congrArg Outcome.size houtcome
  have hobject := congrArg Outcome.object houtcome
  have hfailed := congrArg Outcome.failed houtcome
  refine ⟨g, reaches_of_exec hg, ?_, ?_, ?_⟩
  · intro t
    by_cases ht : t < 3
    · exact Option.isNone_iff_eq_none.mp (List.all_eq_true.mp hidle t (List.mem_range.mpr ht))
    · have hthreads : ∀ e ∈ lostRun, Coop.Event.thread e < 3 := by decide +kernel
      have hsame : g.pool t = none := by
        apply Coop.pool_of_exec hg
        intro e he
        have hlt := hthreads e he
        omega
      exact hsame
  · intro hall
    obtain ⟨row, hrow, hthree⟩ := Option.map_eq_some_iff.mp hsize
    obtain ⟨body, hbody, hlength, -⟩ := hall "k" row hrow
    cases Option.some.inj (hobject.symm.trans hbody)
    rw [hthree] at hlength
    exact absurd hlength (by decide +kernel)
  · intro hall
    obtain ⟨f, hf, hcontent⟩ : ∃ f, f ∈ (g.log.filterMap fun entry => Ret.failedPut entry.2) ∧
        contentOf f = (true, some oldBody, some newerBody) := by
      apply List.mem_map.mp
      rw [show (g.log.filterMap fun entry => Ret.failedPut entry.2).map contentOf = _ from hfailed]
      exact List.mem_singleton_self _
    obtain ⟨⟨c, r⟩, hentry, hret⟩ := List.mem_filterMap.mp hf
    obtain ⟨halone, hcontent⟩ := Prod.mk.inj hcontent
    obtain ⟨hbefore, hafter⟩ := Prod.mk.inj hcontent
    obtain ⟨found, hfound, hold⟩ := Option.map_eq_some_iff.mp hbefore
    rw [(hall c r hentry).of_failedPut hret halone hfound, Option.map_some, Option.some.injEq,
      hold] at hafter
    exact absurd hafter (by decide +kernel)

end KodyCelld.Blobs
