import KodyCelld.Lib.Machine
import KodyCelld.Lib.Rows
import KodyCelld.Memory.Model

namespace KodyCelld.Memory

open KodyCelld.Lib

/-!
# Memories and their vectors (`cells/memory-cell.ts`)

A memory is written first and indexed afterwards: the row is read, its text is embedded, its vector
is put into the store, and then the row is marked with the model.  Any other call may run at each of
these awaits.

* `memories` — `memoryUpsert`, `memoryDelete`, the repair pass of `memorySearch` and
  `memoryReindex`, from await to await;
* `Matching` — what should hold whenever no call is in flight.

A vector is stored as the model and the text that it was made of.  Beside what is stored, the state
lists the memories that were hard-deleted; nothing the source computes depends on this.
-/

/-! ### Rows and vectors -/

structure MemoryRow where
  id : Text
  status : MemoryStatus
  content : MemoryContent
  embeddedModel : Option Text
  createdAt : ℕ
  updatedAt : ℕ
  deletedAt : Option ℕ
  deriving DecidableEq, Repr

/-- A vector with its payload. -/
structure StoredVector where
  model : Text
  text : Text
  status : MemoryStatus
  category : Text
  deriving DecidableEq, Repr

/-- `vectorsReady`: whether the store was made ready by this instance. -/
inductive Ready where
  | idle
  | running
  | done
  deriving DecidableEq, Repr

structure MemoryState where
  memories : Rows MemoryRow.id
  vectors : Text → Option StoredVector
  ready : Ready
  hardDeleted : List Text

/-- What the cell is configured with: the current model, and `URL.canParse`. -/
structure MemoryConfig where
  modelId : Text
  canParse : Text → Bool

structure UpsertInput extends MemoryInput where
  id : Option Text
  status : Option MemoryStatus
  deriving DecidableEq, Repr

inductive Call where
  | upsert (input : UpsertInput)
  | delete (id : Text) (force : Bool)
  | search (query : Text)
  | reindex
  deriving DecidableEq, Repr

/-- What a call returned; `warned` where a vector was deferred. -/
inductive Ret where
  | upserted (created : Bool) (memory : MemoryRow) (warned : Bool)
  | deleted (id : Text) (hard : Bool)
  | searched (warned : Bool)
  | reindexed (total : ℕ)
  | threw (e : Thrown)
  deriving DecidableEq, Repr

/-- What follows an indexing: the call returns, or the loop of a reindexing goes on. -/
inductive After where
  | finish (r : Ret)
  | loop (total : ℕ)
  deriving DecidableEq, Repr

/-- What a call does once the store is ready. -/
inductive Next where
  | index (rows : List MemoryRow) (k : After)
  | repair
  | reset
  | dropVector (id : Text)
  deriving DecidableEq, Repr

/-- Where a call stands. -/
inductive Frame where
  | start (call : Call)
  /-- This call makes the store ready. -/
  | ensuring (next : Next)
  | ensured (recreated : Bool) (next : Next)
  /-- This call awaits that the store is ready. -/
  | waiting (next : Next)
  | embedding (rows : List MemoryRow) (k : After)
  | upserting (rows : List MemoryRow) (k : After)
  | marking (rows : List MemoryRow) (k : After)
  | deletingVector (id : Text)
  deriving DecidableEq, Repr

/-- What the outside supplies to one piece: the clock, a new id, a failure, whether the store was
    dropped while it was made ready, and how many records of a failed request arrived. -/
structure Input where
  now : ℕ
  draw : Text
  fails : Option Thrown
  recreated : Bool
  applied : ℕ
  deriving DecidableEq, Repr

/-! ### Pieces -/

def lazyReindexBatch : ℕ := 32

/-- The vector of a row as it stands. -/
def vectorOf (modelId : Text) (row : MemoryRow) : StoredVector :=
  ⟨modelId, memoryEmbedText row.content, row.status, row.content.category.getD []⟩

/-- `vectors.upsert(records)` -/
def putVectors (modelId : Text) (rows : List MemoryRow) (vectors : Text → Option StoredVector) :
    Text → Option StoredVector :=
  rows.foldl (fun vectors row => Function.update vectors row.id (some (vectorOf modelId row)))
    vectors

/-- `UPDATE memories SET embedded_model = ? WHERE id = ?`, for each of the rows. -/
def markRows (modelId : Text) (rows : List MemoryRow) (memories : Rows MemoryRow.id) :
    Rows MemoryRow.id :=
  memories.map
    (fun row => if row.id ∈ rows.map MemoryRow.id then { row with embeddedModel := some modelId }
      else row)
    fun row => by split <;> rfl

/-- `UPDATE memories SET embedded_model = NULL` -/
def unmark (memories : Rows MemoryRow.id) : Rows MemoryRow.id :=
  memories.map (fun row => { row with embeddedModel := none }) fun _ => rfl

/-- The rows that `repairStaleVectors` reads. -/
def staleRows (modelId : Text) (memories : Rows MemoryRow.id) : List MemoryRow :=
  (Rows.newest MemoryRow.updatedAt
    (memories.rows.filter fun row => decide (row.embeddedModel ≠ some modelId))).take
      lazyReindexBatch

/-- `ensureVectors()`: the first call makes the store ready, the others await it. -/
def ensureVectors (s : MemoryState) (next : Next) : MemoryState × Frame :=
  match s.ready with
  | .idle => ({ s with ready := .running }, .ensuring next)
  | _ => (s, .waiting next)

/-- The return of a call whose indexing threw. -/
def After.failed (e : Thrown) : After → Ret
  | .finish (.upserted created memory _) => .upserted created memory true
  | .finish (.searched _) => .searched true
  | .finish r => r
  | .loop _ => .threw e

def Next.failed (e : Thrown) : Next → Ret
  | .index _ k => k.failed e
  | .repair => .searched true
  | .reset => .threw e
  | .dropVector _ => .threw e

/-- `repairStaleVectors`; without stale rows nothing is awaited. -/
def repairStaleVectors (config : MemoryConfig) (s : MemoryState) (k : After) (done : Ret) :
    MemoryState × (Frame ⊕ Ret) :=
  match staleRows config.modelId s.memories with
  | [] => (s, .inr done)
  | rows =>
    let (s, f) := ensureVectors s (.index rows k)
    (s, .inl f)

/-- What a call does once the store is ready. -/
def proceed (config : MemoryConfig) (s : MemoryState) : Next → MemoryState × (Frame ⊕ Ret)
  | .index rows k => (s, .inl (.embedding rows k))
  | .repair => repairStaleVectors config s (.finish (.searched false)) (.searched false)
  | .reset =>
    repairStaleVectors config { s with memories := unmark s.memories } (.loop 0) (.reindexed 0)
  | .dropVector id => (s, .inl (.deletingVector id))

/-- What follows an indexing of so many rows. -/
def resumeAfter (config : MemoryConfig) (s : MemoryState) (count : ℕ) :
    After → MemoryState × (Frame ⊕ Ret)
  | .finish r => (s, .inr r)
  | .loop total =>
    if count < lazyReindexBatch then (s, .inr (.reindexed (total + count)))
    else repairStaleVectors config s (.loop (total + count)) (.reindexed (total + count))

/-! ### Writes -/

def notFound (id : Text) : Thrown :=
  .kody "memory_not_found" ("No memory with id \"" ++ id ++ "\".") 404

/-- The memory that an upsert changes, if it is not a new one. -/
def existingRow (input : UpsertInput) (content : MemoryContent) (memories : Rows MemoryRow.id) :
    Except Thrown (Option MemoryRow) :=
  match input.id.filter fun id => !id.isEmpty with
  | some id =>
    match memories.find? id with
    | some row => .ok (some row)
    | none => .error (notFound id)
  | none =>
    match content.dedupeKey with
    | none => .ok none
    | some key => .ok (memories.rows.find? fun row => decide (row.content.dedupeKey = some key))

/-- Another memory with the dedupe key. -/
def dedupeClash (content : MemoryContent) (existing : Option MemoryRow)
    (memories : Rows MemoryRow.id) : Option MemoryRow :=
  match content.dedupeKey with
  | none => none
  | some key => memories.rows.find? fun row =>
      decide (row.content.dedupeKey = some key) &&
        decide (row.id ≠ (existing.map MemoryRow.id).getD [])

/-- Everything `memoryUpsert` does before its write: the content, and the memory that is changed. -/
def checkUpsert (config : MemoryConfig) (input : UpsertInput) (memories : Rows MemoryRow.id) :
    Except Thrown (MemoryContent × Option MemoryRow) :=
  match normalizeMemoryInput config.canParse input.toMemoryInput with
  | .error e => .error e
  | .ok content =>
    match existingRow input content memories with
    | .error e => .error e
    | .ok existing =>
      match dedupeClash content existing memories with
      | some clash =>
        .error (.kody "memory_dedupe_conflict" ("dedupe_key \"" ++ content.dedupeKey.getD [] ++
          "\" belongs to memory " ++ clash.id ++ ".") 409)
      | none => .ok (content, existing)

/-- The row that an upsert leaves. -/
def upsertedRow (input : UpsertInput) (content : MemoryContent) (existing : Option MemoryRow)
    (newId : Text) (now : ℕ) : MemoryRow :=
  match existing with
  | some row =>
    let status := input.status.getD (if row.status = .deleted then .active else row.status)
    { row with
      status := status, content := content, embeddedModel := none, updatedAt := now
      deletedAt := if status = .deleted then some (row.deletedAt.getD now) else none }
  | none => ⟨newId, input.status.getD .active, content, none, now, now, none⟩

/-- The row that a soft delete leaves. -/
def softDeleted (row : MemoryRow) (now : ℕ) : MemoryRow :=
  { row with status := .deleted, deletedAt := some now, updatedAt := now, embeddedModel := none }

/-- Replaces the row with this id. -/
def replaceRow (new : MemoryRow) (memories : Rows MemoryRow.id) : Rows MemoryRow.id :=
  memories.map (fun row => if row.id = new.id then new else row) fun row => by
    split
    · rename_i h
      exact h.symm
    · rfl

/-- The write of an upsert. -/
def writeUpsert (row : MemoryRow) (existing : Option MemoryRow) (memories : Rows MemoryRow.id) :
    Except Thrown (Rows MemoryRow.id) :=
  match existing with
  | some _ => .ok (replaceRow row memories)
  | none =>
    match memories.insert? row with
    | some memories => .ok memories
    | none => .error (.error "UNIQUE constraint failed: memories.id")

section
variable (config : MemoryConfig)

/-- A call up to its first await. -/
def begin (s : MemoryState) (i : Input) : Call → MemoryState × (Frame ⊕ Ret)
  | .upsert input =>
    match checkUpsert config input s.memories with
    | .error e => (s, .inr (.threw e))
    | .ok (content, existing) =>
      let row := upsertedRow input content existing i.draw i.now
      match writeUpsert row existing s.memories with
      | .error e => (s, .inr (.threw e))
      | .ok memories =>
        let (s, f) := ensureVectors { s with memories := memories }
          (.index [row] (.finish (.upserted existing.isNone row false)))
        (s, .inl f)
  | .delete id force =>
    match s.memories.find? id with
    | none => (s, .inr (.threw (notFound id)))
    | some row =>
      if force then
        let (s, f) := ensureVectors
          { s with
            memories := s.memories.filter fun row => decide (row.id ≠ id)
            hardDeleted := id :: s.hardDeleted } (.dropVector id)
        (s, .inl f)
      else
        let updated := softDeleted row i.now
        let (s, f) := ensureVectors { s with memories := replaceRow updated s.memories }
          (.index [updated] (.finish (.deleted id false)))
        (s, .inl f)
  | .search query =>
    if (trim query).isEmpty then (s, .inr (.threw (invalidArgs "\"query\" is required.")))
    else
      let (s, f) := ensureVectors s .repair
      (s, .inl f)
  | .reindex =>
    let (s, f) := ensureVectors s .reset
    (s, .inl f)

/-- Runs a call to its next `await` or to its return; `none` where it has to wait. -/
def piece (s : MemoryState) : Frame → Input → Option (MemoryState × (Frame ⊕ Ret))
  | .start call, i => some (begin config s i call)
  | .ensuring next, i =>
    let s := if i.recreated then { s with vectors := fun _ => none } else s
    match i.fails with
    | some e => some ({ s with ready := .idle }, .inr (next.failed e))
    | none => some (s, .inl (.ensured i.recreated next))
  | .ensured recreated next, _ =>
    let s := if recreated then { s with memories := unmark s.memories } else s
    some (proceed config { s with ready := .done } next)
  | .waiting next, i =>
    match i.fails with
    | some e => some (s, .inr (next.failed e))
    | none => if s.ready = .done then some (proceed config s next) else none
  | .embedding rows k, i =>
    match i.fails with
    | some e => some (s, .inr (k.failed e))
    | none => some (s, .inl (.upserting rows k))
  | .upserting rows k, i =>
    match i.fails with
    | some e =>
      some ({ s with vectors := putVectors config.modelId (rows.take i.applied) s.vectors },
        .inr (k.failed e))
    | none =>
      some ({ s with vectors := putVectors config.modelId rows s.vectors }, .inl (.marking rows k))
  | .marking rows k, _ =>
    some (resumeAfter config { s with memories := markRows config.modelId rows s.memories }
      rows.length k)
  | .deletingVector id, i =>
    match i.fails with
    | some e =>
      some (if i.applied = 0 then s else { s with vectors := Function.update s.vectors id none },
        .inr (.threw e))
    | none =>
      some ({ s with vectors := Function.update s.vectors id none }, .inr (.deleted id true))

/-- The calls of a memory cell. -/
def memories : Coop where
  Shared := MemoryState
  Call := Call
  Frame := Frame
  Input := Input
  Ret := Ret
  start := .start
  resume := piece config

end

/-! ### What should hold -/

/-- **Vectors match their rows**: a memory that is marked with the current model has the vector of
    its text, with its status and category; one that was hard-deleted has none. -/
structure Matching (modelId : Text) (s : MemoryState) : Prop where
  marked : ∀ row ∈ s.memories.rows, row.embeddedModel = some modelId →
    s.vectors row.id = some (vectorOf modelId row)
  gone : ∀ id ∈ s.hardDeleted, s.vectors id = none

end KodyCelld.Memory
