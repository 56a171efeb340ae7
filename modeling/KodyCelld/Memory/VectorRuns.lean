import KodyCelld.Memory.MemoryCell

namespace KodyCelld.Memory

open KodyCelld.Lib

/-!
# Runs of a memory cell

An indexing carries the rows that it read across its awaits and marks them by their ids.

* `Careful` — no row is written or deleted while an indexing carries it, a hard delete gets its
  vector deleted, and a store that is dropped is made ready;
* `PieceOk` — what one piece of a call keeps, and `pieceOk` that it does;
* `vectors_match` — on careful runs vectors match their rows whenever no call is in flight;
* `overtaken` — on others they do not have to.
-/

/-! ### What a call carries -/

def Next.rows : Next → List MemoryRow
  | .index rows _ => rows
  | _ => []

def Next.drops : Next → Option Text
  | .dropVector id => some id
  | _ => none

/-- The rows that the call has read and is going to index. -/
def Frame.rows : Frame → List MemoryRow
  | .ensuring next | .ensured _ next | .waiting next => next.rows
  | .embedding rows _ | .upserting rows _ | .marking rows _ => rows
  | .start _ | .deletingVector _ => []

/-- The hard-deleted memory whose vector the call is going to delete. -/
def Frame.drops : Frame → Option Text
  | .ensuring next | .ensured _ next | .waiting next => next.drops
  | .deletingVector id => some id
  | _ => none

/-- The call that makes the store ready. -/
def Frame.driver? : Frame → Option Unit
  | .ensuring _ | .ensured _ _ => some ()
  | _ => none

/-- The call has seen the store ready. -/
def Frame.past : Frame → Bool
  | .embedding _ _ | .upserting _ _ | .marking _ _ | .deletingVector _ => true
  | _ => false

section
variable {config : MemoryConfig}

/-- The memory that a call is going to write or delete, if there is one already. -/
def target (config : MemoryConfig) (s : MemoryState) : Call → Option Text
  | .upsert input =>
    match checkUpsert config input s.memories with
    | .ok (_, existing) => existing.map MemoryRow.id
    | .error _ => none
  | .delete id _ => some id
  | .search _ => none
  | .reindex => none

/-- No indexing in flight carries the row. -/
def Uncarried (g : Coop.Config (memories config)) (id : Text) : Prop :=
  ∀ t c f, g.pool t = some (c, f) → ∀ row ∈ Frame.rows f, row.id ≠ id

/-- **A careful step**: no row is written or deleted while an indexing carries it, an id that was
    deleted is not drawn again, a hard delete does not fail at the vectors, and making the store
    ready does not fail once it was dropped. -/
def Careful (g : Coop.Config (memories config)) : Coop.Event (memories config) → Prop
  | .call _ _ => True
  | .resume t i => ∀ c f, g.pool t = some (c, f) →
    let i : Input := i
    (∀ call, f = Frame.start call →
      i.draw ∉ g.shared.hardDeleted ∧ ∀ id, target config g.shared call = some id →
        Uncarried g id) ∧
    (∀ id, Frame.drops f = some id → i.fails = none) ∧
    (∀ next, f = Frame.ensuring next → i.fails = none ∨ i.recreated = false)

/-! ### The invariant -/

/-- A row that was read still stands as it was read, the mark and the times apart. -/
def Carries (modelId : Text) (s : MemoryState) (read : MemoryRow) : Prop :=
  ∃ row ∈ s.memories.rows, row.id = read.id ∧ vectorOf modelId row = vectorOf modelId read

/-- The marked rows have their vectors. -/
def Marked (modelId : Text) (s : MemoryState) : Prop :=
  ∀ row ∈ s.memories.rows, row.embeddedModel = some modelId →
    s.vectors row.id = some (vectorOf modelId row)

/-- What holds of a call in flight. -/
structure FrameOk (modelId : Text) (s : MemoryState) (f : Frame) : Prop where
  carried : ∀ r ∈ f.rows, Carries modelId s r
  stored : ∀ rows k, f = .marking rows k → ∀ r ∈ rows, s.vectors r.id = some (vectorOf modelId r)
  running : f.driver? = some () → s.ready = .running
  done : f.past = true → s.ready = .done
  dropped : ∀ id, f.drops = some id → id ∈ s.hardDeleted

structure VectorInv (g : Coop.Config (memories config)) : Prop where
  apart : ∀ row ∈ g.shared.memories.rows, row.id ∉ g.shared.hardDeleted
  /-- The store was dropped and the marks are still to be taken away, or they are right. -/
  marked : (∃ t c next, g.pool t = some (c, Frame.ensured true next)) ∨
    Marked config.modelId g.shared
  gone : ∀ id ∈ g.shared.hardDeleted, g.shared.vectors id = none ∨
    ∃ t c f, g.pool t = some (c, f) ∧ Frame.drops f = some id
  frames : ∀ t c f, g.pool t = some (c, f) → FrameOk config.modelId g.shared f
  unique : Coop.Unique Frame.driver? g

/-- What the writes of a piece keep, for the rows that the other calls carry. -/
structure StateOk (modelId : Text) (Other : MemoryRow → Prop) (s s' : MemoryState) : Prop where
  apart : ∀ row ∈ s'.memories.rows, row.id ∉ s'.hardDeleted
  deleted : s.hardDeleted ⊆ s'.hardDeleted
  rows : ∀ r, Other r → Carries modelId s r → Carries modelId s' r
  vectors : s.ready = .done → ∀ r, Other r → Carries modelId s r →
    s.vectors r.id = some (vectorOf modelId r) → s'.vectors r.id = some (vectorOf modelId r)
  gone : ∀ id ∈ s.hardDeleted, s.vectors id = none → s'.vectors id = none

/-- **What one piece keeps.** -/
structure PieceOk (modelId : Text) (Other : MemoryRow → Prop) (s s' : MemoryState) (f : Frame)
    (out : Frame ⊕ Ret) : Prop where
  state : StateOk modelId Other s s'
  ready : f.driver? = none → s'.ready = s.ready ∨ (s.ready = .idle ∧ s'.ready = .running)
  marked : Marked modelId s ∨ (∃ next, f = .ensured true next) →
    Marked modelId s' ∨ ∃ next, out = .inl (.ensured true next)
  dropping : ∀ id ∈ s'.hardDeleted, id ∉ s.hardDeleted ∨ f.drops = some id →
    s'.vectors id = none ∨ ∃ f', out = .inl f' ∧ f'.drops = some id
  out : ∀ f', out = .inl f' → FrameOk modelId s' f' ∧
    (f'.driver? = some () → f.driver? = some () ∨ s.ready = .idle)

/-- The rows that the calls of other threads carry. -/
def Others (g : Coop.Config (memories config)) (t : ℕ) (r : MemoryRow) : Prop :=
  ∃ u c f, u ≠ t ∧ g.pool u = some (c, f) ∧ r ∈ Frame.rows f

/-- **Step lemma**, for a piece that keeps what it should. -/
theorem VectorInv.ran {g g' : Coop.Config (memories config)} (hg : VectorInv g) {t : ℕ} {c : Call}
    {f : Frame} {i : Input} {out : Frame ⊕ Ret} (hran : Coop.Ran g g' t c f i out)
    (h : PieceOk config.modelId (Others g t) g.shared g'.shared f out) : VectorInv g' := by
  have hframe := hg.frames t c f hran.before
  have hunique : Coop.Unique Frame.driver? g' := by
    refine hg.unique.ran hran fun f' k hout hkey => ?_
    rcases (h.out f' hout).2 hkey with hdriver | hidle
    · exact .inl hdriver
    · right
      intro u c' f' hu hdriver
      have hrunning := (hg.frames u c' f' hu).running hdriver
      rw [hidle] at hrunning
      cases hrunning
  refine ⟨h.state.apart, ?_, ?_, ?_, hunique⟩
  · -- marks
    rcases hg.marked with ⟨u, c', next, hu⟩ | hmarked
    · by_cases hut : u = t
      · subst hut
        obtain ⟨-, hf⟩ := Prod.mk.inj (Option.some.inj (hran.before.symm.trans hu))
        rcases h.marked (.inr ⟨next, hf⟩) with hmarked | ⟨next', rfl⟩
        · exact .inr hmarked
        · rcases hran.own with ⟨f', hout, hpool, -⟩ | ⟨r, hout, -⟩
          · obtain rfl := Sum.inl.inj hout
            exact .inl ⟨u, c, next', hpool⟩
          · cases hout
      · exact .inl ⟨u, c', next, (hran.others u hut).trans hu⟩
    · rcases h.marked (.inl hmarked) with hmarked | ⟨next', rfl⟩
      · exact .inr hmarked
      · rcases hran.own with ⟨f', hout, hpool, -⟩ | ⟨r, hout, -⟩
        · obtain rfl := Sum.inl.inj hout
          exact .inl ⟨t, c, next', hpool⟩
        · cases hout
  · -- hard-deleted memories
    intro id hid
    have hown : id ∉ g.shared.hardDeleted ∨ f.drops = some id →
        g'.shared.vectors id = none ∨
          ∃ u c f, g'.pool u = some (c, f) ∧ Frame.drops f = some id := by
      intro hdrops
      rcases h.dropping id hid hdrops with hnone | ⟨f', rfl, hf'⟩
      · exact .inl hnone
      · rcases hran.own with ⟨f₁, hout, hpool, -⟩ | ⟨r, hout, -⟩
        · obtain rfl := Sum.inl.inj hout
          exact .inr ⟨t, c, f', hpool, hf'⟩
        · cases hout
    by_cases hold : id ∈ g.shared.hardDeleted
    · rcases hg.gone id hold with hnone | ⟨u, c', f', hu, hf'⟩
      · exact .inl (h.state.gone id hold hnone)
      · by_cases hut : u = t
        · subst hut
          obtain ⟨-, rfl⟩ := Prod.mk.inj (Option.some.inj (hran.before.symm.trans hu))
          exact hown (.inr hf')
        · exact .inr ⟨u, c', f', (hran.others u hut).trans hu, hf'⟩
    · exact hown (.inl hold)
  · -- calls in flight
    intro u c' f' hu
    rcases hran.pool u c' f' hu with ⟨hut, hu⟩ | ⟨rfl, -, hout⟩
    · have hok := hg.frames u c' f' hu
      have hother : ∀ r ∈ f'.rows, Others g t r := fun r hr => ⟨u, c', f', hut, hu, hr⟩
      refine ⟨fun r hr => h.state.rows r (hother r hr) (hok.carried r hr), ?_, ?_, ?_,
        fun id hid => h.state.deleted (hok.dropped id hid)⟩
      · rintro rows k rfl r hr
        exact h.state.vectors (hok.done rfl) r (hother r hr) (hok.carried r hr)
          (hok.stored rows k rfl r hr)
      · intro hdriver
        have hrunning := hok.running hdriver
        cases hf : f.driver? with
        | some driver => exact absurd (hg.unique u t c' c f' f () hu hran.before hdriver hf) hut
        | none =>
          rcases h.ready hf with hsame | ⟨hidle, -⟩
          · exact hsame.trans hrunning
          · rw [hidle] at hrunning
            cases hrunning
      · intro hpast
        have hdone := hok.done hpast
        cases hf : f.driver? with
        | some driver =>
          have hrunning := hframe.running hf
          rw [hdone] at hrunning
          cases hrunning
        | none =>
          rcases h.ready hf with hsame | ⟨hidle, -⟩
          · exact hsame.trans hdone
          · rw [hidle] at hdone
            cases hdone
    · exact (h.out f' hout).1

end

/-! ### Writes -/

/-- **What a write keeps**, before the call goes on. -/
structure WriteOk (modelId : Text) (Other : MemoryRow → Prop) (s s' : MemoryState) (f : Frame) :
    Prop where
  state : StateOk modelId Other s s'
  ready : f.driver? = none → s'.ready = s.ready
  marked : Marked modelId s ∨ (∃ next, f = .ensured true next) → Marked modelId s'

/-- A hard-deleted memory that this call is to see to has no vector, or the call still is to. -/
def Drops (s s' : MemoryState) (f : Frame) (drops : Option Text) : Prop :=
  ∀ id ∈ s'.hardDeleted, id ∉ s.hardDeleted ∨ f.drops = some id →
    s'.vectors id = none ∨ drops = some id

section
variable {modelId : Text} {Other : MemoryRow → Prop} {s s' : MemoryState} {f : Frame}

theorem StateOk.refl (h : ∀ row ∈ s.memories.rows, row.id ∉ s.hardDeleted) :
    StateOk modelId Other s s :=
  ⟨h, List.Subset.refl _, fun _ _ hr => hr, fun _ _ _ _ hr => hr, fun _ _ hid => hid⟩

theorem StateOk.setReady (h : ∀ row ∈ s.memories.rows, row.id ∉ s.hardDeleted) (ready : Ready) :
    StateOk modelId Other s { s with ready := ready } :=
  ⟨h, List.Subset.refl _, fun _ _ hr => hr, fun _ _ _ _ hr => hr, fun _ _ hid => hid⟩

/-- Before and after a call that has not seen the store dropped, marks have to be right. -/
theorem marked_of (hf : ∀ next, f ≠ .ensured true next)
    (h : Marked modelId s ∨ ∃ next, f = .ensured true next) : Marked modelId s := by
  rcases h with hmarked | ⟨next, hnext⟩
  · exact hmarked
  · exact absurd hnext (hf next)

theorem WriteOk.refl (h : ∀ row ∈ s.memories.rows, row.id ∉ s.hardDeleted)
    (hf : ∀ next, f ≠ .ensured true next) : WriteOk modelId Other s s f :=
  ⟨StateOk.refl h, fun _ => rfl, marked_of hf⟩

/-- A call that deletes no vectors has nothing to see to. -/
theorem Drops.none (hdeleted : s'.hardDeleted = s.hardDeleted) (hf : f.drops = none)
    (drops : Option Text) : Drops s s' f drops := by
  rintro id hid (hnew | hdrops)
  · exact absurd (hdeleted ▸ hid) hnew
  · rw [hf] at hdrops
    cases hdrops

theorem PieceOk.ret (h : WriteOk modelId Other s s' f) (hdrops : Drops s s' f none) (r : Ret) :
    PieceOk modelId Other s s' f (.inr r) := by
  refine ⟨h.state, fun hf => .inl (h.ready hf), fun hmarked => .inl (h.marked hmarked), ?_, ?_⟩
  · intro id hid hold
    rcases hdrops id hid hold with hnone | hsome
    · exact .inl hnone
    · cases hsome
  · intro f' hout
    cases hout

theorem PieceOk.next (h : WriteOk modelId Other s s' f) {f' : Frame}
    (hdrops : Drops s s' f f'.drops) (hframe : FrameOk modelId s' f') (hdriver : f'.driver? = none) :
    PieceOk modelId Other s s' f (.inl f') := by
  refine ⟨h.state, fun hf => .inl (h.ready hf), fun hmarked => .inl (h.marked hmarked), ?_, ?_⟩
  · intro id hid hold
    rcases hdrops id hid hold with hnone | hsome
    · exact .inl hnone
    · exact .inr ⟨f', rfl, hsome⟩
  · intro f₁ hout
    obtain rfl := Sum.inl.inj hout
    refine ⟨hframe, fun hkey => ?_⟩
    rw [hdriver] at hkey
    cases hkey

/-- **A write, and then the store is made ready**, or awaited. -/
theorem PieceOk.ensure (h : WriteOk modelId Other s s' f) {next : Next}
    (hdrops : Drops s s' f next.drops) (hrows : ∀ r ∈ next.rows, Carries modelId s' r)
    (hnext : ∀ id, next.drops = some id → id ∈ s'.hardDeleted) :
    PieceOk modelId Other s (ensureVectors s' next).1 f (.inl (ensureVectors s' next).2) := by
  cases hready : s'.ready with
  | idle =>
    have hensure : ensureVectors s' next = ({ s' with ready := .running }, .ensuring next) := by
      rw [ensureVectors, hready]
    rw [hensure]
    refine ⟨⟨h.state.apart, h.state.deleted, h.state.rows, h.state.vectors, h.state.gone⟩, ?_,
      fun hmarked => .inl (h.marked hmarked), ?_, ?_⟩
    · intro hf
      right
      rw [← h.ready hf]
      exact ⟨hready, rfl⟩
    · intro id hid hold
      rcases hdrops id hid hold with hnone | hsome
      · exact .inl hnone
      · exact .inr ⟨_, rfl, hsome⟩
    · intro f' hout
      obtain rfl := Sum.inl.inj hout
      refine ⟨⟨hrows, nofun, fun _ => rfl, nofun, hnext⟩, ?_⟩
      intro _
      cases hf : f.driver? with
      | some driver => exact .inl rfl
      | none =>
        right
        rw [← h.ready hf]
        exact hready
  | running | done =>
    have hensure : ensureVectors s' next = (s', .waiting next) := by
      rw [ensureVectors, hready]
    rw [hensure]
    exact PieceOk.next h hdrops
      ⟨hrows, nofun, nofun, nofun, hnext⟩ rfl

/-! ### Marks and vectors -/

theorem carries_of_mem {row : MemoryRow} (h : row ∈ s.memories.rows) : Carries modelId s row :=
  ⟨row, h, rfl, rfl⟩

/-- A change of the marks keeps what rows say. -/
theorem carries_map {memories : Rows MemoryRow.id} {change : MemoryRow → MemoryRow}
    (hrows : memories.rows = s.memories.rows.map change) (hkey : ∀ row, (change row).id = row.id)
    (hsame : ∀ row, vectorOf modelId (change row) = vectorOf modelId row) {r : MemoryRow}
    (h : Carries modelId s r) : Carries modelId { s with memories := memories } r := by
  obtain ⟨row, hrow, hid, hvector⟩ := h
  refine ⟨change row, ?_, (hkey row).trans hid, (hsame row).trans hvector⟩
  show change row ∈ memories.rows
  rw [hrows]
  exact List.mem_map_of_mem hrow

/-- The rows after a change of the marks are apart from what was deleted. -/
theorem apart_map {old memories : Rows MemoryRow.id} {deleted : List Text}
    {change : MemoryRow → MemoryRow} (hrows : memories.rows = old.rows.map change)
    (hkey : ∀ row, (change row).id = row.id) (h : ∀ row ∈ old.rows, row.id ∉ deleted) :
    ∀ row ∈ memories.rows, row.id ∉ deleted := by
  intro row hrow
  rw [hrows] at hrow
  obtain ⟨was, hwas, rfl⟩ := List.mem_map.mp hrow
  rw [hkey]
  exact h was hwas

theorem unmark_rows (memories : Rows MemoryRow.id) :
    (unmark memories).rows = memories.rows.map fun row => { row with embeddedModel := none } := rfl

/-- **After the marks are taken away** nothing is marked. -/
theorem WriteOk.unmark (h : StateOk modelId Other s s')
    (hready : f.driver? = none → s'.ready = s.ready) :
    WriteOk modelId Other s { s' with memories := unmark s'.memories } f := by
  have hrows := unmark_rows s'.memories
  refine ⟨⟨apart_map hrows (fun _ => rfl) h.apart, h.deleted, ?_, h.vectors, h.gone⟩, hready, ?_⟩
  · intro r hother hr
    exact carries_map hrows (fun _ => rfl) (fun _ => rfl) (h.rows r hother hr)
  · intro _ row hrow hmark
    obtain ⟨old, -, rfl⟩ := List.mem_map.mp hrow
    cases hmark

/-- What a marking makes of a row. -/
def markRow (modelId : Text) (rows : List MemoryRow) (row : MemoryRow) : MemoryRow :=
  if row.id ∈ rows.map MemoryRow.id then { row with embeddedModel := some modelId } else row

@[simp] theorem markRow_id (rows : List MemoryRow) (row : MemoryRow) :
    (markRow modelId rows row).id = row.id := by
  rw [markRow]
  split
  · rfl
  · rfl

@[simp] theorem vectorOf_markRow (rows : List MemoryRow) (row : MemoryRow) :
    vectorOf modelId (markRow modelId rows row) = vectorOf modelId row := by
  rw [markRow]
  split
  · rfl
  · rfl

theorem markRow_eq_self {rows : List MemoryRow} {row : MemoryRow}
    (h : row.id ∉ rows.map MemoryRow.id) : markRow modelId rows row = row := if_neg h

theorem markRows_rows (modelId : Text) (rows : List MemoryRow) (memories : Rows MemoryRow.id) :
    (markRows modelId rows memories).rows = memories.rows.map (markRow modelId rows) := rfl

/-- A row that stands as it was read has the vector of what was read. -/
theorem vectorOf_of_carries {row r : MemoryRow} (hrow : row ∈ s.memories.rows) (hid : row.id = r.id)
    (h : Carries modelId s r) : vectorOf modelId row = vectorOf modelId r := by
  obtain ⟨other, hother, hsame, hvector⟩ := h
  have heq : row = other :=
    List.inj_on_of_nodup_map s.memories.nodup hrow hother (hid.trans hsame.symm)
  rw [heq, hvector]

/-- Two rows that were read of one memory and still stand say the same. -/
theorem vectorOf_eq {r r' : MemoryRow} (h : Carries modelId s r) (h' : Carries modelId s r')
    (hid : r'.id = r.id) : vectorOf modelId r' = vectorOf modelId r := by
  obtain ⟨row, hrow, hrid, hvector⟩ := h
  rw [← hvector]
  exact (vectorOf_of_carries hrow (hrid.trans hid.symm) h').symm

/-- The vector of an id after rows that all say the same under it were put. -/
theorem putVectors_eq {rows : List MemoryRow} {vectors : Text → Option StoredVector} {id : Text}
    {vector : StoredVector} (hrows : ∀ r ∈ rows, r.id = id → vectorOf modelId r = vector)
    (h : vectors id = some vector ∨ ∃ r ∈ rows, r.id = id) :
    putVectors modelId rows vectors id = some vector := by
  induction rows generalizing vectors with
  | nil =>
    rcases h with hold | ⟨r, hr, -⟩
    · exact hold
    · exact absurd hr List.not_mem_nil
  | cons first rest ih =>
    obtain ⟨hfirst, hrest⟩ := List.forall_mem_cons.mp hrows
    apply ih hrest
    dsimp only
    by_cases hid : first.id = id
    · left
      rw [← hid, Function.update_self, hfirst hid]
    · rw [Function.update_of_ne (Ne.symm hid)]
      rcases h with hold | ⟨r, hr, hrid⟩
      · exact .inl hold
      · rcases List.mem_cons.mp hr with rfl | hr
        · exact absurd hrid hid
        · exact .inr ⟨r, hr, hrid⟩

theorem putVectors_other {rows : List MemoryRow} {vectors : Text → Option StoredVector} {id : Text}
    (h : ∀ r ∈ rows, r.id ≠ id) : putVectors modelId rows vectors id = vectors id := by
  induction rows generalizing vectors with
  | nil => rfl
  | cons first rest ih =>
    obtain ⟨hfirst, hrest⟩ := List.forall_mem_cons.mp h
    exact (ih hrest).trans (Function.update_of_ne (Ne.symm hfirst) _ _)

/-- **Vectors that are put** are those of rows that stand as they were read. -/
theorem WriteOk.put (happart : ∀ row ∈ s.memories.rows, row.id ∉ s.hardDeleted)
    (hf : ∀ next, f ≠ .ensured true next) {rows : List MemoryRow}
    (hrows : ∀ r ∈ rows, Carries modelId s r) :
    WriteOk modelId Other s { s with vectors := putVectors modelId rows s.vectors } f := by
  have hsame : ∀ r, Carries modelId s r → ∀ r' ∈ rows, r'.id = r.id →
      vectorOf modelId r' = vectorOf modelId r :=
    fun r hr r' hr' => vectorOf_eq hr (hrows r' hr')
  refine ⟨⟨happart, List.Subset.refl _, fun _ _ hr => hr, ?_, ?_⟩, fun _ => rfl, ?_⟩
  · intro _ r _ hr hstored
    exact putVectors_eq (hsame r hr) (.inl hstored)
  · intro id hid hnone
    rw [← hnone]
    apply putVectors_other
    rintro r hr rfl
    obtain ⟨row, hrow, hrid, -⟩ := hrows r hr
    exact happart row hrow (hrid ▸ hid)
  · intro hmarked row hrow hmark
    exact putVectors_eq (hsame row (carries_of_mem hrow)) (.inl (marked_of hf hmarked row hrow hmark))

/-- **Rows that are marked** have their vectors, where they stand as they were read and those were
    put. -/
theorem WriteOk.mark (happart : ∀ row ∈ s.memories.rows, row.id ∉ s.hardDeleted)
    (hf : ∀ next, f ≠ .ensured true next) {rows : List MemoryRow}
    (hrows : ∀ r ∈ rows, Carries modelId s r)
    (hstored : ∀ r ∈ rows, s.vectors r.id = some (vectorOf modelId r)) :
    WriteOk modelId Other s { s with memories := markRows modelId rows s.memories } f := by
  have hmap := markRows_rows modelId rows s.memories
  refine ⟨⟨apart_map hmap (markRow_id rows) happart, List.Subset.refl _, ?_, fun _ _ _ _ hr => hr,
    fun _ _ hid => hid⟩, fun _ => rfl, ?_⟩
  · intro r _ hr
    exact carries_map hmap (markRow_id rows) (vectorOf_markRow rows) hr
  · intro hmarked row hrow hmark
    obtain ⟨old, hold, rfl⟩ := List.mem_map.mp (hmap ▸ hrow)
    show s.vectors (markRow modelId rows old).id = _
    rw [vectorOf_markRow, markRow_id]
    by_cases hmem : old.id ∈ rows.map MemoryRow.id
    · obtain ⟨r, hr, hid⟩ := List.mem_map.mp hmem
      rw [vectorOf_of_carries hold hid.symm (hrows r hr), ← hid]
      exact hstored r hr
    · apply marked_of hf hmarked old hold
      rw [← hmark, markRow_eq_self hmem]

/-! ### Writes of rows -/

/-- **A row that is written** and that no other call carries; it loses its mark. -/
theorem WriteOk.replace (happart : ∀ row ∈ s.memories.rows, row.id ∉ s.hardDeleted)
    (hf : ∀ next, f ≠ .ensured true next) (new : MemoryRow) (hmark : new.embeddedModel = none)
    (hother : ∀ r, Other r → r.id ≠ new.id) :
    WriteOk modelId Other s { s with memories := replaceRow new s.memories } f := by
  have hrows : (replaceRow new s.memories).rows =
      s.memories.rows.map fun row => if row.id = new.id then new else row := rfl
  refine ⟨⟨apart_map hrows ?_ happart, List.Subset.refl _, ?_, fun _ _ _ _ hr => hr,
    fun _ _ hid => hid⟩, fun _ => rfl, ?_⟩
  · intro row
    split
    · rename_i hid
      exact hid.symm
    · rfl
  · -- a row that is carried is another one
    rintro r hr ⟨row, hrow, hid, hvector⟩
    refine ⟨row, ?_, hid, hvector⟩
    show row ∈ (replaceRow new s.memories).rows
    rw [hrows]
    refine List.mem_map.mpr ⟨row, hrow, if_neg ?_⟩
    rw [hid]
    exact hother r hr
  · intro hmarked row hrow hmodel
    obtain ⟨old, hold, rfl⟩ := List.mem_map.mp (hrows ▸ hrow)
    by_cases hid : old.id = new.id
    · simp only [if_pos hid, hmark] at hmodel
      cases hmodel
    · simp only [if_neg hid] at hmodel ⊢
      exact marked_of hf hmarked old hold hmodel

/-- **A row that is added** under an id that no memory had. -/
theorem WriteOk.insert (happart : ∀ row ∈ s.memories.rows, row.id ∉ s.hardDeleted)
    (hf : ∀ next, f ≠ .ensured true next) {new : MemoryRow} (hmark : new.embeddedModel = none)
    (hnew : new.id ∉ s.hardDeleted) {memories : Rows MemoryRow.id}
    (hinsert : s.memories.insert? new = some memories) :
    WriteOk modelId Other s { s with memories := memories } f := by
  refine ⟨⟨?_, List.Subset.refl _, ?_, fun _ _ _ _ hr => hr, fun _ _ hid => hid⟩, fun _ => rfl, ?_⟩
  · intro row hrow
    rcases (Rows.mem_insert? hinsert).mp hrow with hold | rfl
    · exact happart row hold
    · exact hnew
  · rintro r - ⟨row, hrow, hid, hvector⟩
    exact ⟨row, (Rows.mem_insert? hinsert).mpr (.inl hrow), hid, hvector⟩
  · intro hmarked row hrow hmodel
    rcases (Rows.mem_insert? hinsert).mp hrow with hold | rfl
    · exact marked_of hf hmarked row hold hmodel
    · rw [hmark] at hmodel
      cases hmodel

/-- **A row that is deleted** and that no other call carries. -/
theorem WriteOk.remove (happart : ∀ row ∈ s.memories.rows, row.id ∉ s.hardDeleted)
    (hf : ∀ next, f ≠ .ensured true next) {id : Text} (hother : ∀ r, Other r → r.id ≠ id) :
    WriteOk modelId Other s
      { s with
        memories := s.memories.filter fun row => decide (row.id ≠ id)
        hardDeleted := id :: s.hardDeleted } f := by
  refine ⟨⟨?_, List.subset_cons_self _ _, ?_, fun _ _ _ _ hr => hr, ?_⟩, fun _ => rfl, ?_⟩
  · intro row hrow
    obtain ⟨hold, hid⟩ := Rows.mem_filter.mp hrow
    rintro (_ | hmem)
    · exact of_decide_eq_true hid rfl
    · exact happart row hold ‹_›
  · rintro r hr ⟨row, hrow, hid, hvector⟩
    refine ⟨row, Rows.mem_filter.mpr ⟨hrow, decide_eq_true ?_⟩, hid, hvector⟩
    rw [hid]
    exact hother r hr
  · exact fun _ _ hnone => hnone
  · intro hmarked row hrow hmodel
    exact marked_of hf hmarked row (Rows.mem_filter.mp hrow).1 hmodel

end

/-! ### What a call goes on with -/

section
variable {config : MemoryConfig} {Other : MemoryRow → Prop} {s s' : MemoryState} {f : Frame}

theorem mem_of_staleRows {modelId : Text} {memories : Rows MemoryRow.id} {row : MemoryRow}
    (h : row ∈ staleRows modelId memories) : row ∈ memories.rows := by
  have hnewest := List.mem_of_mem_take h
  rw [(Rows.newest_perm _ _).mem_iff] at hnewest
  exact (List.mem_filter.mp hnewest).1

theorem PieceOk.repair (h : WriteOk config.modelId Other s s' f)
    (hdeleted : s'.hardDeleted = s.hardDeleted) (hf : f.drops = none) (k : After) (done : Ret) :
    PieceOk config.modelId Other s (repairStaleVectors config s' k done).1 f
      (repairStaleVectors config s' k done).2 := by
  rw [repairStaleVectors]
  cases hrows : staleRows config.modelId s'.memories with
  | nil => exact PieceOk.ret h (Drops.none hdeleted hf _) done
  | cons row rest =>
    refine PieceOk.ensure h (Drops.none hdeleted hf _) ?_ nofun
    intro r hr
    apply carries_of_mem
    apply mem_of_staleRows
    rw [hrows]
    exact hr

/-- **Once the store is ready** the call indexes, repairs, or deletes the vector. -/
theorem PieceOk.proceed (h : WriteOk config.modelId Other s s' f)
    (hdeleted : s'.hardDeleted = s.hardDeleted) (hdone : s'.ready = .done) {next : Next}
    (hf : f.drops = next.drops) (hrows : ∀ r ∈ next.rows, Carries config.modelId s' r)
    (hnext : ∀ id, next.drops = some id → id ∈ s'.hardDeleted) :
    PieceOk config.modelId Other s (proceed config s' next).1 f (proceed config s' next).2 := by
  cases next with
  | index rows k =>
    exact PieceOk.next h (Drops.none hdeleted hf _) ⟨hrows, nofun, nofun, fun _ => hdone, nofun⟩ rfl
  | repair => exact PieceOk.repair h hdeleted hf _ _
  | reset => exact PieceOk.repair (WriteOk.unmark h.state h.ready) hdeleted hf _ _
  | dropVector id =>
    refine PieceOk.next h ?_ ⟨nofun, nofun, nofun, fun _ => hdone, hnext⟩ rfl
    rintro id' hid (hnew | hdrops)
    · exact absurd (hdeleted ▸ hid) hnew
    · exact .inr (hf.symm.trans hdrops)

theorem PieceOk.resumeAfter (h : WriteOk config.modelId Other s s' f)
    (hdeleted : s'.hardDeleted = s.hardDeleted) (hf : f.drops = none) (count : ℕ) (k : After) :
    PieceOk config.modelId Other s (resumeAfter config s' count k).1 f
      (resumeAfter config s' count k).2 := by
  cases k with
  | finish r => exact PieceOk.ret h (Drops.none hdeleted hf _) r
  | loop total =>
    rw [Memory.resumeAfter]
    split
    · exact PieceOk.ret h (Drops.none hdeleted hf _) _
    · exact PieceOk.repair h hdeleted hf _ _

end

/-! ### One piece -/

theorem existingRow_mem {input : UpsertInput} {content : MemoryContent}
    {memories : Rows MemoryRow.id} {row : MemoryRow}
    (h : existingRow input content memories = .ok (some row)) : row ∈ memories.rows := by
  rw [existingRow] at h
  split at h
  · split at h
    · rename_i hfind
      obtain rfl := Option.some.inj (Except.ok.inj h)
      exact (Rows.find?_eq_some.mp hfind).1
    · cases h
  · split at h
    · cases h
    · exact List.mem_of_find?_eq_some (Except.ok.inj h)

theorem checkUpsert_mem {config : MemoryConfig} {input : UpsertInput} {memories : Rows MemoryRow.id}
    {content : MemoryContent} {row : MemoryRow}
    (h : checkUpsert config input memories = .ok (content, some row)) : row ∈ memories.rows := by
  rw [checkUpsert] at h
  split at h
  · cases h
  split at h
  · cases h
  rename_i hexisting
  split at h
  · cases h
  obtain ⟨-, rfl⟩ := Prod.mk.inj (Except.ok.inj h)
  exact existingRow_mem hexisting

/-- A row that was replaced stands. -/
theorem mem_replaceRow {memories : Rows MemoryRow.id} {old new : MemoryRow}
    (hold : old ∈ memories.rows) (hid : old.id = new.id) : new ∈ (replaceRow new memories).rows :=
  List.mem_map.mpr ⟨old, hold, if_pos hid⟩

section
variable {config : MemoryConfig} {g : Coop.Config (memories config)} {t : ℕ} {i : Input}

theorem Uncarried.others {id : Text} (h : Uncarried g id) (t : ℕ) :
    ∀ r, Others g t r → r.id ≠ id := by
  rintro r ⟨u, c, f, -, hu, hr⟩
  exact h u c f hu r hr

theorem beginOk_upsert (hg : VectorInv g) {input : UpsertInput}
    (hdraw : i.draw ∉ g.shared.hardDeleted)
    (htarget : ∀ id, target config g.shared (.upsert input) = some id → Uncarried g id) :
    PieceOk config.modelId (Others g t) g.shared (begin config g.shared i (.upsert input)).1
      (.start (.upsert input)) (begin config g.shared i (.upsert input)).2 := by
  have happart := hg.apart
  have hf : ∀ next, Frame.start (.upsert input) ≠ .ensured true next := nofun
  unfold begin
  dsimp only
  cases hcheck : checkUpsert config input g.shared.memories with
  | error e => exact PieceOk.ret (WriteOk.refl happart hf) (Drops.none rfl rfl _) _
  | ok checked =>
    obtain ⟨content, existing⟩ := checked
    simp only [target, hcheck] at htarget
    cases existing with
    | some old =>
      have hold := checkUpsert_mem hcheck
      have hwrite : WriteOk config.modelId (Others g t) g.shared _ (.start (.upsert input)) :=
        WriteOk.replace happart hf (upsertedRow input content (some old) i.draw i.now) rfl
          ((htarget old.id rfl).others t)
      refine PieceOk.ensure hwrite (Drops.none rfl rfl _) ?_ nofun
      intro r hr
      obtain rfl := List.mem_singleton.mp hr
      exact carries_of_mem (mem_replaceRow hold rfl)
    | none =>
      dsimp only [writeUpsert]
      cases hinsert : g.shared.memories.insert? (upsertedRow input content none i.draw i.now) with
      | none => exact PieceOk.ret (WriteOk.refl happart hf) (Drops.none rfl rfl _) _
      | some inserted =>
        have hwrite : WriteOk config.modelId (Others g t) g.shared
            { g.shared with memories := inserted } (.start (.upsert input)) :=
          WriteOk.insert happart hf rfl hdraw hinsert
        refine PieceOk.ensure hwrite (Drops.none rfl rfl _) ?_ nofun
        intro r hr
        obtain rfl := List.mem_singleton.mp hr
        exact carries_of_mem ((Rows.mem_insert? hinsert).mpr (.inr rfl))

theorem beginOk_delete (hg : VectorInv g) {id : Text} {force : Bool} (hfree : Uncarried g id) :
    PieceOk config.modelId (Others g t) g.shared (begin config g.shared i (.delete id force)).1
      (.start (.delete id force)) (begin config g.shared i (.delete id force)).2 := by
  have happart := hg.apart
  have hf : ∀ next, Frame.start (.delete id force) ≠ .ensured true next := nofun
  unfold begin
  dsimp only
  cases hfind : g.shared.memories.find? id with
  | none => exact PieceOk.ret (WriteOk.refl happart hf) (Drops.none rfl rfl _) _
  | some row =>
    obtain ⟨hrow, rfl⟩ := Rows.find?_eq_some.mp hfind
    cases force with
    | true =>
      -- the row goes, and the call is to delete its vector
      refine PieceOk.ensure (WriteOk.remove happart hf (hfree.others t)) ?_ nofun ?_
      · rintro id hid (hnew | hdrops)
        · rcases List.mem_cons.mp hid with rfl | hold
          · exact .inr rfl
          · exact absurd hold hnew
        · cases hdrops
      · intro id hid
        cases hid
        exact List.mem_cons_self
    | false =>
      have hwrite : WriteOk config.modelId (Others g t) g.shared _ (.start (.delete row.id false)) :=
        WriteOk.replace happart hf (softDeleted row i.now) rfl (hfree.others t)
      refine PieceOk.ensure hwrite (Drops.none rfl rfl _) ?_ nofun
      intro r hr
      obtain rfl := List.mem_singleton.mp hr
      exact carries_of_mem (mem_replaceRow hrow rfl)

theorem beginOk (hg : VectorInv g) {call : Call} (hdraw : i.draw ∉ g.shared.hardDeleted)
    (htarget : ∀ id, target config g.shared call = some id → Uncarried g id) :
    PieceOk config.modelId (Others g t) g.shared (begin config g.shared i call).1 (.start call)
      (begin config g.shared i call).2 := by
  have hrefl : WriteOk config.modelId (Others g t) g.shared g.shared (.start call) :=
    WriteOk.refl hg.apart nofun
  cases call with
  | upsert input => exact beginOk_upsert hg hdraw htarget
  | delete id force => exact beginOk_delete hg (htarget id rfl)
  | search query =>
    unfold begin
    dsimp only
    split
    · exact PieceOk.ret hrefl (Drops.none rfl rfl _) _
    · exact PieceOk.ensure hrefl (Drops.none rfl rfl _) nofun nofun
  | reindex => exact PieceOk.ensure hrefl (Drops.none rfl rfl _) nofun nofun

theorem PieceOk.of_eq {Other : MemoryRow → Prop} {s s' : MemoryState} {f : Frame}
    {out : Frame ⊕ Ret} {p : MemoryState × (Frame ⊕ Ret)}
    (h : PieceOk config.modelId Other s p.1 f p.2) (hp : some p = some (s', out)) :
    PieceOk config.modelId Other s s' f out := by
  obtain rfl := Option.some.inj hp
  exact h

/-- A call that may fail here is not to delete a vector. -/
theorem drops_of_fails {drops : Option Text} {e : Thrown}
    (h : ∀ id, drops = some id → i.fails = none) (hfails : i.fails = some e) : drops = none := by
  cases drops with
  | none => rfl
  | some id =>
    have hnone := h id rfl
    rw [hfails] at hnone
    cases hnone

/-- **The store is made ready**; if it was dropped, all marks are wrong until they are taken away. -/
theorem ensuringOk (hg : VectorInv g) {c : Call} {next : Next}
    (hpool : g.pool t = some (c, Frame.ensuring next))
    (hdrop : ∀ id, next.drops = some id → i.fails = none)
    (hensure : i.fails = none ∨ i.recreated = false) {s' : MemoryState} {out : Frame ⊕ Ret}
    (hpiece : piece config g.shared (.ensuring next) i = some (s', out)) :
    PieceOk config.modelId (Others g t) g.shared s' (.ensuring next) out := by
  have hframe := hg.frames t c _ hpool
  have hrunning : g.shared.ready = .running := hframe.running rfl
  have hf : ∀ next', Frame.ensuring next ≠ .ensured true next' := nofun
  unfold piece at hpiece
  dsimp only at hpiece
  cases hfails : i.fails with
  | some e =>
    have hsame : i.recreated = false := hensure.resolve_left (by rw [hfails]; simp)
    have hwrite : WriteOk config.modelId (Others g t) g.shared { g.shared with ready := .idle }
        (.ensuring next) :=
      ⟨StateOk.setReady hg.apart _, nofun, marked_of hf⟩
    have hnone : Frame.drops (.ensuring next) = none := drops_of_fails hdrop hfails
    rw [hfails, hsame] at hpiece
    exact PieceOk.of_eq (PieceOk.ret hwrite (Drops.none rfl hnone _) _) hpiece
  | none =>
    rw [hfails] at hpiece
    cases hrec : i.recreated with
    | true =>
      rw [hrec] at hpiece
      refine PieceOk.of_eq (p := ({ g.shared with vectors := fun _ => none }, _)) ⟨⟨hg.apart,
        List.Subset.refl _, fun _ _ hr => hr, ?_, fun _ _ _ => rfl⟩, nofun,
        fun _ => .inr ⟨next, rfl⟩, fun _ _ _ => .inl rfl, ?_⟩ hpiece
      · -- no call has seen this store ready
        intro hdone
        rw [hrunning] at hdone
        cases hdone
      · intro f' hout
        obtain rfl := Sum.inl.inj hout
        exact ⟨⟨hframe.carried, nofun, fun _ => hrunning, nofun, hframe.dropped⟩, fun _ => .inl rfl⟩
    | false =>
      rw [hrec] at hpiece
      refine PieceOk.of_eq (p := (g.shared, _)) ⟨StateOk.refl hg.apart, nofun,
        fun hmarked => .inl (marked_of hf hmarked), ?_, ?_⟩ hpiece
      · rintro id hid (hnew | hdrops)
        · exact absurd hid hnew
        · exact .inr ⟨_, rfl, hdrops⟩
      · intro f' hout
        obtain rfl := Sum.inl.inj hout
        exact ⟨⟨hframe.carried, nofun, fun _ => hrunning, nofun, hframe.dropped⟩, fun _ => .inl rfl⟩

/-- **The store is ready**, and the marks are taken away where it was dropped. -/
theorem ensuredOk (hg : VectorInv g) {c : Call} {recreated : Bool} {next : Next}
    (hpool : g.pool t = some (c, Frame.ensured recreated next)) {s' : MemoryState}
    {out : Frame ⊕ Ret}
    (hpiece : piece config g.shared (.ensured recreated next) i = some (s', out)) :
    PieceOk config.modelId (Others g t) g.shared s' (.ensured recreated next) out := by
  have hframe := hg.frames t c _ hpool
  have hstate : StateOk config.modelId (Others g t) g.shared { g.shared with ready := .done } :=
    StateOk.setReady hg.apart _
  cases recreated with
  | true =>
    have hwrite : WriteOk config.modelId (Others g t) g.shared
        { g.shared with ready := .done, memories := unmark g.shared.memories }
        (.ensured true next) := WriteOk.unmark hstate nofun
    refine PieceOk.of_eq (PieceOk.proceed hwrite rfl rfl rfl ?_ hframe.dropped) hpiece
    intro r hr
    exact carries_map (unmark_rows _) (fun _ => rfl) (fun _ => rfl) (hframe.carried r hr)
  | false =>
    have hwrite : WriteOk config.modelId (Others g t) g.shared { g.shared with ready := .done }
        (.ensured false next) :=
      ⟨hstate, nofun, marked_of nofun⟩
    exact PieceOk.of_eq
      (PieceOk.proceed hwrite rfl rfl rfl hframe.carried hframe.dropped) hpiece

theorem waitingOk (hg : VectorInv g) {c : Call} {next : Next}
    (hpool : g.pool t = some (c, Frame.waiting next))
    (hdrop : ∀ id, next.drops = some id → i.fails = none) {s' : MemoryState} {out : Frame ⊕ Ret}
    (hpiece : piece config g.shared (.waiting next) i = some (s', out)) :
    PieceOk config.modelId (Others g t) g.shared s' (.waiting next) out := by
  have hframe := hg.frames t c _ hpool
  have hrefl : WriteOk config.modelId (Others g t) g.shared g.shared (.waiting next) :=
    WriteOk.refl hg.apart nofun
  unfold piece at hpiece
  dsimp only at hpiece
  cases hfails : i.fails with
  | some e =>
    have hnone : Frame.drops (.waiting next) = none := drops_of_fails hdrop hfails
    rw [hfails] at hpiece
    exact PieceOk.of_eq (PieceOk.ret hrefl (Drops.none rfl hnone _) _) hpiece
  | none =>
    rw [hfails] at hpiece
    dsimp only at hpiece
    split at hpiece
    · rename_i hdone
      exact PieceOk.of_eq (PieceOk.proceed hrefl rfl hdone rfl hframe.carried hframe.dropped) hpiece
    · cases hpiece

/-- **Vectors are put**, all of them or, where the request fails, those that arrived. -/
theorem upsertingOk (hg : VectorInv g) {c : Call} {rows : List MemoryRow} {k : After}
    (hpool : g.pool t = some (c, Frame.upserting rows k)) {s' : MemoryState} {out : Frame ⊕ Ret}
    (hpiece : piece config g.shared (.upserting rows k) i = some (s', out)) :
    PieceOk config.modelId (Others g t) g.shared s' (.upserting rows k) out := by
  have hframe := hg.frames t c _ hpool
  have hf : ∀ next, Frame.upserting rows k ≠ .ensured true next := nofun
  have hwrite : ∀ put : List MemoryRow, put ⊆ rows →
      WriteOk config.modelId (Others g t) g.shared
        { g.shared with vectors := putVectors config.modelId put g.shared.vectors }
        (.upserting rows k) :=
    fun put hput => WriteOk.put hg.apart hf fun r hr => hframe.carried r (hput hr)
  unfold piece at hpiece
  dsimp only at hpiece
  split at hpiece
  · have hprefix := hwrite (rows.take i.applied) (List.take_subset _ _)
    exact PieceOk.of_eq (PieceOk.ret hprefix (Drops.none rfl rfl _) _) hpiece
  · have hstored : ∀ rows' k', Frame.marking rows k = .marking rows' k' → ∀ r ∈ rows',
        putVectors config.modelId rows g.shared.vectors r.id =
          some (vectorOf config.modelId r) := by
      rintro rows' k' heq r hr
      cases heq
      exact putVectors_eq (fun r' hr' => vectorOf_eq (hframe.carried r hr) (hframe.carried r' hr'))
        (.inr ⟨r, hr, rfl⟩)
    have hnext : PieceOk config.modelId (Others g t) g.shared
        { g.shared with vectors := putVectors config.modelId rows g.shared.vectors }
        (.upserting rows k) (.inl (.marking rows k)) :=
      PieceOk.next (hwrite rows (List.Subset.refl _)) (Drops.none rfl rfl _)
        ⟨hframe.carried, hstored, nofun, hframe.done, nofun⟩ rfl
    exact hnext.of_eq hpiece

/-- **The vector of a hard-deleted memory goes**; no row has its id. -/
theorem deletingOk (hg : VectorInv g) {c : Call} {id : Text}
    (hpool : g.pool t = some (c, Frame.deletingVector id)) (hnone : i.fails = none)
    {s' : MemoryState} {out : Frame ⊕ Ret}
    (hpiece : piece config g.shared (.deletingVector id) i = some (s', out)) :
    PieceOk config.modelId (Others g t) g.shared s' (.deletingVector id) out := by
  have hid := (hg.frames t c _ hpool).dropped id rfl
  have hf : ∀ next, Frame.deletingVector id ≠ .ensured true next := nofun
  have hother : ∀ row ∈ g.shared.memories.rows,
      Function.update g.shared.vectors id none row.id = g.shared.vectors row.id := by
    intro row hrow
    apply Function.update_of_ne
    rintro rfl
    exact hg.apart row hrow hid
  have hwrite : WriteOk config.modelId (Others g t) g.shared
      { g.shared with vectors := Function.update g.shared.vectors id none } (.deletingVector id) := by
    refine ⟨⟨hg.apart, List.Subset.refl _, fun _ _ hr => hr, ?_, ?_⟩, fun _ => rfl, ?_⟩
    · rintro - r - ⟨row, hrow, hrid, -⟩ hstored
      rw [← hrid] at hstored ⊢
      exact (hother row hrow).trans hstored
    · intro id' _ hgone
      show Function.update g.shared.vectors id none id' = none
      by_cases heq : id' = id
      · rw [heq, Function.update_self]
      · rw [Function.update_of_ne heq, hgone]
    · intro hmarked row hrow hmodel
      exact (hother row hrow).trans (marked_of hf hmarked row hrow hmodel)
  unfold piece at hpiece
  dsimp only at hpiece
  rw [hnone] at hpiece
  refine PieceOk.of_eq (PieceOk.ret hwrite ?_ _) hpiece
  rintro id' hid' (hnew | hdrops)
  · exact absurd hid' hnew
  · cases hdrops
    exact .inl (Function.update_self ..)

/-- **What one piece of a careful run keeps.** -/
theorem pieceOk (hg : VectorInv g) {c : Call} {f : Frame} (hpool : g.pool t = some (c, f))
    (hcareful : Careful g (.resume t i)) {s' : MemoryState} {out : Frame ⊕ Ret}
    (hpiece : piece config g.shared f i = some (s', out)) :
    PieceOk config.modelId (Others g t) g.shared s' f out := by
  obtain ⟨hstart, hdrop, hensure⟩ := hcareful c f hpool
  have hframe := hg.frames t c f hpool
  cases f with
  | start call =>
    obtain ⟨hdraw, htarget⟩ := hstart call rfl
    exact PieceOk.of_eq (beginOk hg hdraw htarget) hpiece
  | ensuring next => exact ensuringOk hg hpool hdrop (hensure next rfl) hpiece
  | ensured recreated next => exact ensuredOk hg hpool hpiece
  | waiting next => exact waitingOk hg hpool hdrop hpiece
  | embedding rows k =>
    have hrefl : WriteOk config.modelId (Others g t) g.shared g.shared (.embedding rows k) :=
      WriteOk.refl hg.apart nofun
    unfold piece at hpiece
    dsimp only at hpiece
    split at hpiece
    · exact PieceOk.of_eq (PieceOk.ret hrefl (Drops.none rfl rfl _) _) hpiece
    · have hnext : PieceOk config.modelId (Others g t) g.shared g.shared (.embedding rows k)
          (.inl (.upserting rows k)) :=
        PieceOk.next hrefl (Drops.none rfl rfl _)
          ⟨hframe.carried, nofun, nofun, hframe.done, nofun⟩ rfl
      exact hnext.of_eq hpiece
  | upserting rows k => exact upsertingOk hg hpool hpiece
  | marking rows k =>
    have hf : ∀ next, Frame.marking rows k ≠ .ensured true next := nofun
    have hwrite : WriteOk config.modelId (Others g t) g.shared
        { g.shared with memories := markRows config.modelId rows g.shared.memories }
        (.marking rows k) :=
      WriteOk.mark hg.apart hf hframe.carried (hframe.stored rows k rfl)
    exact PieceOk.of_eq (PieceOk.resumeAfter hwrite rfl rfl _ k) hpiece
  | deletingVector id => exact deletingOk hg hpool (hdrop id rfl) hpiece

/-- A call that was made has read nothing yet. -/
theorem VectorInv.call (hg : VectorInv g) {c : Call} (hfree : g.pool t = none) :
    VectorInv
      ({ g with pool := Function.update g.pool t (some (c, Frame.start c)) } :
        Coop.Config (memories config)) := by
  have hstays : ∀ u c' f, g.pool u = some (c', f) →
      Function.update g.pool t (some (c, Frame.start c)) u = some (c', f) := by
    intro u c' f hu
    have hut : u ≠ t := by
      rintro rfl
      rw [hfree] at hu
      cases hu
    rw [Function.update_of_ne hut, hu]
  refine ⟨hg.apart, ?_, ?_, ?_, hg.unique.call rfl⟩
  · rcases hg.marked with ⟨u, c', next, hu⟩ | hmarked
    · exact .inl ⟨u, c', next, hstays u c' _ hu⟩
    · exact .inr hmarked
  · intro id hid
    rcases hg.gone id hid with hnone | ⟨u, c', f, hu, hf⟩
    · exact .inl hnone
    · exact .inr ⟨u, c', f, hstays u c' f hu, hf⟩
  · intro u c' f hu
    rcases Coop.pool_update_cases hu with ⟨-, hstart⟩ | ⟨-, hold⟩
    · obtain ⟨-, rfl⟩ := Prod.mk.inj (Option.some.inj hstart)
      exact ⟨nofun, nofun, nofun, nofun, nofun⟩
    · exact hg.frames u c' f hold

/-- **Step lemma.** -/
theorem VectorInv.step {g' : Coop.Config (memories config)} {e : Coop.Event (memories config)}
    (hg : VectorInv g) (hcareful : Careful g e) (hstep : Coop.step g e = some g') :
    VectorInv g' := by
  rcases Coop.step_ran hstep with ⟨u, c, rfl, hfree, rfl⟩ | ⟨u, j, c, f, out, rfl, hran⟩
  · exact hg.call hfree
  · exact hg.ran hran (pieceOk hg hran.before hcareful hran.runs)

end

/-! ### Runs -/

/-- A store as an instance of the cell finds it: vectors match, and nothing was asked of them. -/
structure Opened (modelId : Text) (s : MemoryState) : Prop where
  matching : Matching modelId s
  apart : ∀ row ∈ s.memories.rows, row.id ∉ s.hardDeleted
  idle : s.ready = .idle

theorem VectorInv.idle {config : MemoryConfig} {s : MemoryState} (h : Opened config.modelId s) :
    VectorInv (@Coop.idle (memories config) s) := by
  refine ⟨h.apart, .inr h.matching.marked, fun id hid => .inl (h.matching.gone id hid), ?_, ?_⟩
  · intro t c f hpool
    cases hpool
  · intro t u c c' f f' k hpool
    cases hpool

/-- **Run theorem.**  After careful steps the vectors match their rows whenever no call is in
    flight. -/
theorem vectors_match {config : MemoryConfig} {s : MemoryState} (hs : Opened config.modelId s)
    {g : Coop.Config (memories config)}
    (hrun : Reaches Coop.step Careful (@Coop.idle (memories config) s) g)
    (hquiet : ∀ t, g.pool t = none) : Matching config.modelId g.shared := by
  have hinv : VectorInv g :=
    Reaches.invariant VectorInv (fun _ _ _ hg hcareful hstep => VectorInv.step hg hcareful hstep)
      hrun (VectorInv.idle hs)
  constructor
  · rcases hinv.marked with ⟨t, c, next, hpool⟩ | hmarked
    · rw [hquiet t] at hpool
      cases hpool
    · exact hmarked
  · intro id hid
    rcases hinv.gone id hid with hnone | ⟨t, c, f, hpool, -⟩
    · exact hnone
    · rw [hquiet t] at hpool
      cases hpool

/-! ### A careful run -/

def sampleConfig : MemoryConfig := ⟨"m", fun _ => true⟩

def sampleEmpty : MemoryState := ⟨⟨[], List.nodup_nil⟩, fun _ => none, .idle, []⟩

theorem sampleEmpty_opened : Opened sampleConfig.modelId sampleEmpty :=
  ⟨⟨nofun, nofun⟩, nofun, rfl⟩

def sampleUpsert (id : Option Text) (summary : Text) : Call :=
  .upsert ⟨⟨"tea", summary, none, none, [], [], none⟩, id, none⟩

/-- A call of so many pieces, none of which fails; `draw` is the id of a new memory. -/
def runs (t : ℕ) (call : Call) (draw : Text) (n : ℕ) : List (Coop.Event (memories sampleConfig)) :=
  .call t call :: List.replicate n (.resume t (⟨0, draw, none, false, 0⟩ : Input))

/-- The rest of a call. -/
def goesOn (t n : ℕ) : List (Coop.Event (memories sampleConfig)) :=
  List.replicate n (.resume t (⟨0, "1", none, false, 0⟩ : Input))

/-- What is read off a run: whether no call is in flight, what the memories say with their models,
    what was hard-deleted, and whether the marked memories have their vectors. -/
structure Outcome where
  quiet : Bool
  memories : List (Text × Text × Option Text)
  deleted : List Text
  right : Bool
  deriving DecidableEq

def outcomeOf (g : Coop.Config (memories sampleConfig)) : Outcome where
  quiet := (List.range 3).all fun t => (g.pool t).isNone
  memories := g.shared.memories.rows.map fun row => (row.id, row.content.summary, row.embeddedModel)
  deleted := g.shared.hardDeleted
  right := g.shared.memories.rows.all fun row =>
    decide (row.embeddedModel = some sampleConfig.modelId →
      g.shared.vectors row.id = some (vectorOf sampleConfig.modelId row))

/-- The calls of a run on the threads below three have returned. -/
theorem quiet_of_outcome {g : Coop.Config (memories sampleConfig)}
    {es : List (Coop.Event (memories sampleConfig))}
    (hg : exec Coop.step (@Coop.idle (memories sampleConfig) sampleEmpty) es = some g)
    (hthreads : ∀ e ∈ es, Coop.Event.thread e < 3) (hquiet : (outcomeOf g).quiet = true) :
    ∀ t, g.pool t = none := by
  intro t
  by_cases ht : t < 3
  · exact Option.isNone_iff_eq_none.mp (List.all_eq_true.mp hquiet t (List.mem_range.mpr ht))
  · have hsame : g.pool t = (@Coop.idle (memories sampleConfig) sampleEmpty).pool t := by
      apply Coop.pool_of_exec hg
      intro e he
      have hlt := hthreads e he
      omega
    exact hsame

/-- The condition on a step, where only the threads below `N` are ever used and nothing fails. -/
def carefulBelow (N : ℕ) :
    Coop.Config (memories sampleConfig) → Coop.Event (memories sampleConfig) → Bool :=
  Coop.below N fun g e => match e with
    | .call _ _ => true
    | .resume t i =>
      let i : Input := i
      i.fails.isNone && (g.pool t).all fun (_, f) => match f with
        | Frame.start call => decide (i.draw ∉ g.shared.hardDeleted) &&
            (target sampleConfig g.shared call).all fun id => (List.range N).all fun u =>
              (g.pool u).all fun (_, other) => (Frame.rows other).all fun row =>
                decide (row.id ≠ id)
        | _ => true

theorem careful_of_carefulBelow {N : ℕ} {g g' : Coop.Config (memories sampleConfig)}
    {es : List (Coop.Event (memories sampleConfig))} (hidle : ∀ u, N ≤ u → g.pool u = none)
    (h : execGuarded Coop.step (carefulBelow N) g es = some g') : Reaches Coop.step Careful g g' := by
  refine (Coop.reaches_of_below hidle h).mono fun g e ⟨hcheck, hidle⟩ => ?_
  cases e with
  | call t c => trivial
  | resume t i =>
    intro c f hpool
    dsimp only at hcheck
    rw [hpool, Bool.and_eq_true, Option.isNone_iff_eq_none] at hcheck
    obtain ⟨hfails, hcheck⟩ := hcheck
    refine ⟨?_, fun _ _ => hfails, fun _ _ => .inl hfails⟩
    rintro call rfl
    rw [Option.all_some, Bool.and_eq_true, decide_eq_true_eq] at hcheck
    obtain ⟨hdraw, htarget⟩ := hcheck
    refine ⟨hdraw, fun id hid u c' other hu row hrow => ?_⟩
    by_cases hN : N ≤ u
    · rw [hidle u hN] at hu
      cases hu
    · rw [hid, Option.all_some, List.all_eq_true] at htarget
      have hother := htarget u (List.mem_range.mpr (Nat.lt_of_not_le hN))
      rw [hu, Option.all_some, List.all_eq_true] at hother
      exact of_decide_eq_true (hother row hrow)

/-- The memory `1` is made and changed, and the memory `2` is made and hard-deleted; a search comes
    in between. -/
def carefulRun : List (Coop.Event (memories sampleConfig)) :=
  runs 0 (sampleUpsert none "black") "1" 6 ++ runs 1 (sampleUpsert none "white") "2" 3 ++
    runs 2 (sampleUpsert (some "1") "green") "3" 5 ++ goesOn 1 2 ++ runs 0 (.delete "2" true) "3" 3

theorem vectors_match_careful : ∃ g : Coop.Config (memories sampleConfig),
    (outcomeOf g).memories = [(("1" : Text), ("green" : Text), some ("m" : Text))] ∧
      g.shared.hardDeleted = ["2"] ∧ Matching sampleConfig.modelId g.shared := by
  have hrun : (execGuarded Coop.step (carefulBelow 3)
      (@Coop.idle (memories sampleConfig) sampleEmpty) carefulRun).map outcomeOf =
      some ⟨true, [("1", "green", some "m")], ["2"], true⟩ := by
    decide +kernel
  obtain ⟨g, hg, houtcome⟩ := Option.map_eq_some_iff.mp hrun
  have hthreads : ∀ e ∈ carefulRun, Coop.Event.thread e < 3 := by decide +kernel
  have hquiet := quiet_of_outcome (exec_of_execGuarded hg) hthreads (congrArg Outcome.quiet houtcome)
  have hcareful := careful_of_carefulBelow (fun _ _ => rfl) hg
  exact ⟨g, congrArg Outcome.memories houtcome, congrArg Outcome.deleted houtcome,
    vectors_match sampleEmpty_opened hcareful hquiet⟩

/-- A change of the memory `1` overtakes another one, between its embedding and its vector. -/
def overtakenRun : List (Coop.Event (memories sampleConfig)) :=
  runs 0 (sampleUpsert none "black") "1" 6 ++ runs 1 (sampleUpsert (some "1") "green") "2" 3 ++
    runs 2 (sampleUpsert (some "1") "white") "2" 5 ++ goesOn 1 2

/-- **A vector that stays wrong.**  Two changes of one memory overlap: the first embeds its text,
    the second runs to its end, and then the first puts its old vector.  The memory is marked with
    the current model, no call is in flight, and no repair pass will read it. -/
theorem overtaken : ∃ g : Coop.Config (memories sampleConfig),
    Reaches Coop.step (fun _ _ => True) (@Coop.idle (memories sampleConfig) sampleEmpty) g ∧
      (∀ t, g.pool t = none) ∧ ¬ Matching sampleConfig.modelId g.shared := by
  have hrun : (exec Coop.step (@Coop.idle (memories sampleConfig) sampleEmpty) overtakenRun).map
      outcomeOf = some ⟨true, [("1", "white", some "m")], [], false⟩ := by
    decide +kernel
  obtain ⟨g, hg, houtcome⟩ := Option.map_eq_some_iff.mp hrun
  have hthreads : ∀ e ∈ overtakenRun, Coop.Event.thread e < 3 := by decide +kernel
  refine ⟨g, reaches_of_exec hg, quiet_of_outcome hg hthreads (congrArg Outcome.quiet houtcome), ?_⟩
  intro hmatching
  have hwrong : (outcomeOf g).right = false := congrArg Outcome.right houtcome
  have hright : (outcomeOf g).right = true :=
    List.all_eq_true.mpr fun row hrow => decide_eq_true (hmatching.marked row hrow)
  rw [hwrong] at hright
  cases hright

end KodyCelld.Memory
