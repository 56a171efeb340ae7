import KodyCelld.Webhooks.Authorised
import Mathlib.Data.List.Perm.Subperm

namespace KodyCelld.Webhooks

open KodyCelld.Lib KodyCelld.Execute KodyCelld.Packages

/-!
# Deliveries run exactly once

Over every interleaving of deliveries, with the ledger of ids pruned to its newest thousand rows.

* `Told` — what the claim of an id may answer, given the claims before it;
* `Distinct` — a step that does not claim an id under the row of another: ids are cut off in the key
  of the ledger;
* `deliveries_exactlyOnce` — in every run of such steps: a replay repeats an earlier delivery, a new
  id is run, and none is run again while its row is kept;
* `cutOff` — two delivery ids of more than two hundred characters that meet in one row.
-/

/-! ### What a claim may answer -/

/-- The claim found a delivery before it. -/
def ClaimState.repeats : ClaimState → Bool
  | .inProgress => true
  | .replay _ _ _ => true
  | _ => false

/-- The delivery was answered as a replay, or as in progress. -/
def Response.repeats : Response → Bool
  | .refused status error _ => decide (status = 409 ∧ error = "invocation_in_progress")
  | .acceptedReplay _ => true
  | .replayed _ _ _ => true
  | _ => false

/-- One handle and one id; for the key of a client also one payload. -/
def SameDelivery (a b : Attempt) : Prop :=
  a.handle = b.handle ∧ a.id = b.id ∧ ∀ key, b.id = .client key → a.body = b.body

/-- The new claims on the handle of `a` that are at least as new, of other ids. -/
def newer (attempts : List Attempt) (a : Attempt) : List Attempt :=
  attempts.filter fun c => decide (c.state = .new) && decide (c.handle = a.handle) &&
    decide (a.createdAt ≤ c.createdAt) && decide (c.id ≠ a.id)

/-- What a claim was told, given the claims before it: it repeats one of them, or it is new; a new
    id is told so; and an id is new again only when a thousand newer ones have taken its place. -/
structure Told (earlier : List Attempt) (b : Attempt) : Prop where
  repeats : b.state.repeats = true → ∃ a ∈ earlier, SameDelivery a b
  new : (∀ a ∈ earlier, a.handle = b.handle → a.id ≠ b.id) → b.state = .new
  window : b.state = .new → ∀ a ∈ earlier, a.state = .new → a.handle = b.handle → a.id = b.id →
    1000 ≤ (newer earlier a).length

/-- Every claim of the list, newest first, was told well. -/
def ToldAll : List Attempt → Prop
  | [] => True
  | b :: earlier => Told earlier b ∧ ToldAll earlier

theorem ToldAll.told {attempts : List Attempt} (h : ToldAll attempts) {b : Attempt}
    (hb : b ∈ attempts) : ∃ later earlier, attempts = later ++ b :: earlier ∧ Told earlier b := by
  induction attempts with
  | nil => exact absurd hb List.not_mem_nil
  | cons c rest ih =>
    rcases List.mem_cons.mp hb with rfl | hrest
    · exact ⟨[], rest, rfl, h.1⟩
    · obtain ⟨later, earlier, rfl, htold⟩ := ih h.2 hrest
      exact ⟨c :: later, earlier, rfl, htold⟩

theorem ToldAll.split {later earlier : List Attempt} {b : Attempt}
    (h : ToldAll (later ++ b :: earlier)) : Told earlier b := by
  induction later with
  | nil => exact h.1
  | cons c rest ih => exact ih h.2

section
variable {attempts : List Attempt} {a b : Attempt}

theorem mem_newer : b ∈ newer attempts a ↔ b ∈ attempts ∧ b.state = .new ∧ b.handle = a.handle ∧
    a.createdAt ≤ b.createdAt ∧ b.id ≠ a.id := by
  unfold newer
  rw [List.mem_filter]
  simp only [Bool.and_eq_true, decide_eq_true_eq]
  tauto

/-- What outlives a claim still does after another one. -/
theorem length_newer_cons : (newer attempts a).length ≤ (newer (b :: attempts) a).length :=
  List.Sublist.length_le ((List.sublist_cons_self b attempts).filter _)

end

/-! ### The steps -/

/-- The row under the key of an id was inserted by that id, and for the key of a client by a payload
    that is the same if its digest is. -/
def KeyDistinct (p : Platform) (s : WebhookState) (handle : Text) (id : DeliveryId) (body : Text) :
    Prop :=
  ∀ row, s.idempotency.find? (handle, id.key) = some row → row.id = id ∧
    ∀ key, id = .client key → p.sha256Hex body = p.sha256Hex row.body → body = row.body

def FrameDistinct (p : Platform) (s : WebhookState) : Frame → Prop
  | .claiming x _ id => KeyDistinct p s x.delivery.handle id x.delivery.request.body
  | _ => True

/-- A step that does not claim an id under the row of another. -/
def Distinct (p : Platform) (g : Coop.Config (webhooks p)) (e : Coop.Event (webhooks p)) : Prop :=
  ∀ t i c f, e = .resume t i → g.pool t = some (c, f) → FrameDistinct p g.shared f

/-! ### The ledger of ids -/

/-- The claim that inserted a row. -/
def Inserted (row : IdempotencyRow) (a : Attempt) : Prop :=
  a.state = .new ∧ a.handle = row.handle ∧ a.id = row.id ∧ a.body = row.body ∧
    a.createdAt = row.createdAt

/-- The row of the id of a claim, not older than it. -/
def Keeps (row : IdempotencyRow) (a : Attempt) : Prop :=
  row.primaryKey = (a.handle, a.id.key) ∧ a.createdAt ≤ row.createdAt

/-- The ledger says what was claimed: its rows are of new claims, and a new claim has its row until a
    thousand newer ones have taken its place. -/
structure Ledger (p : Platform) (rows : Rows IdempotencyRow.primaryKey) (attempts : List Attempt) :
    Prop where
  keyed : ∀ row ∈ rows.rows, row.key = row.id.key ∧ row.payloadHash = row.id.payloadHash p row.body
  inserted : ∀ row ∈ rows.rows, ∃ a ∈ attempts, Inserted row a
  kept : ∀ a ∈ attempts, a.state = .new →
    (∃ row ∈ rows.rows, Keeps row a) ∨ 1000 ≤ (newer attempts a).length
  told : ToldAll attempts

section
variable {p : Platform} {rows : Rows IdempotencyRow.primaryKey} {attempts : List Attempt}

/-- Rows that are kept outlive a claim whose row is not newer than they are. -/
theorem length_newer_of_kept {a : Attempt} {row : IdempotencyRow} {kept : List IdempotencyRow}
    (hkeeps : Keeps row a) (hnodup : (kept.map IdempotencyRow.primaryKey).Nodup)
    (hkept : ∀ other ∈ kept, other.handle = row.handle ∧ row.createdAt ≤ other.createdAt ∧
      other.primaryKey ≠ row.primaryKey ∧ other.key = other.id.key ∧
      ∃ c ∈ attempts, Inserted other c) :
    kept.length ≤ (newer attempts a).length := by
  obtain ⟨hrowKey, hcreated⟩ := hkeeps
  have hsubset : kept.map IdempotencyRow.primaryKey ⊆
      (newer attempts a).map fun c => (c.handle, c.id.key) := by
    intro k hk
    obtain ⟨other, hother, rfl⟩ := List.mem_map.mp hk
    obtain ⟨hhandle, htime, hkey, hotherKey, c, hc, hnew, hcHandle, hcId, -, hcCreated⟩ :=
      hkept other hother
    have hprimary : other.primaryKey = (c.handle, c.id.key) := by
      rw [hcHandle, hcId, ← hotherKey]
      rfl
    have haHandle : row.handle = a.handle := congrArg Prod.fst hrowKey
    refine List.mem_map.mpr ⟨c, mem_newer.mpr ⟨hc, hnew, ?_, ?_, ?_⟩, hprimary.symm⟩
    · rw [hcHandle, hhandle, haHandle]
    · omega
    · -- another row of the handle has another key, hence another id
      rintro hid
      refine hkey ?_
      rw [hprimary, hrowKey, hcHandle, hhandle, haHandle, hid]
  have hlength := (List.subperm_of_subset hnodup hsubset).length_le
  rwa [List.length_map, List.length_map] at hlength

/-- **An answer from a row** leaves the ledger in order. -/
theorem Ledger.found (h : Ledger p rows attempts) {row : IdempotencyRow} {b : Attempt}
    (hfind : rows.find? (b.handle, b.id.key) = some row) (hid : row.id = b.id)
    (hbody : ∀ key, b.id = .client key → p.sha256Hex b.body = p.sha256Hex row.body →
      b.body = row.body)
    (hstate : b.state = row.claimState (b.id.payloadHash p b.body)) :
    Ledger p rows (b :: attempts) := by
  obtain ⟨hmem, hkey⟩ := Rows.find?_eq_some.mp hfind
  obtain ⟨a, ha, hnew, hhandle, haid, habody, hcreated⟩ := h.inserted row hmem
  have hsame : a.handle = b.handle := hhandle.trans (congrArg Prod.fst hkey)
  have hold : b.state ≠ .new := by
    rw [hstate]
    unfold IdempotencyRow.claimState
    split
    · simp
    · split <;> simp
  refine ⟨h.keyed, fun r hr => ?_, fun c hc hcnew => ?_, ⟨?_, ?_, ?_⟩, h.told⟩
  · obtain ⟨c, hc, hinserted⟩ := h.inserted r hr
    exact ⟨c, List.mem_cons_of_mem _ hc, hinserted⟩
  · rcases List.mem_cons.mp hc with rfl | hc
    · exact absurd hcnew hold
    · rcases h.kept c hc hcnew with hkept | houtlived
      · exact .inl hkept
      · exact .inr (houtlived.trans length_newer_cons)
  · intro hrepeats
    refine ⟨a, ha, hsame, haid.trans hid, fun key hclient => ?_⟩
    -- no conflict, so the digests of the payloads agree
    have hhash : row.payloadHash = some (p.sha256Hex row.body) := by
      rw [(h.keyed row hmem).2, hid, hclient]
      rfl
    have hmine : b.id.payloadHash p b.body = some (p.sha256Hex b.body) := by
      rw [hclient]
      rfl
    rw [hstate, hmine] at hrepeats
    unfold IdempotencyRow.claimState at hrepeats
    rw [hhash] at hrepeats
    split at hrepeats
    · exact absurd hrepeats (by simp [ClaimState.repeats])
    rename_i hagree
    have hdigest : p.sha256Hex b.body = p.sha256Hex row.body := by
      by_contra hne
      exact hagree ⟨rfl, rfl, fun heq => hne (Option.some.inj heq).symm⟩
    rw [habody, hbody key hclient hdigest]
  · exact fun hnone => absurd (haid.trans hid) (hnone a ha hsame)
  · exact fun hbnew => absurd hbnew hold

/-- **A new claim** leaves the ledger in order, though it may push older rows out. -/
theorem Ledger.claimed (h : Ledger p rows attempts) {b : Attempt} {row : IdempotencyRow}
    {table : Rows IdempotencyRow.primaryKey} (hfree : rows.find? (b.handle, b.id.key) = none)
    (hrow : row.primaryKey = (b.handle, b.id.key)) (hinsert : rows.insert? row = some table)
    (hinserted : Inserted row b) (hhash : row.payloadHash = row.id.payloadHash p row.body) :
    Ledger p (table.keepNewest (fun r => decide (r.handle = b.handle)) IdempotencyRow.createdAt 1000)
      (b :: attempts) := by
  set final := table.keepNewest (fun r => decide (r.handle = b.handle)) IdempotencyRow.createdAt 1000
    with hfinal
  have hkeyed : ∀ r ∈ table.rows, r.key = r.id.key ∧ r.payloadHash = r.id.payloadHash p r.body := by
    intro r hr
    rcases (Rows.mem_insert? hinsert).mp hr with hold | rfl
    · exact h.keyed r hold
    · refine ⟨?_, hhash⟩
      rw [← hinserted.2.2.1]
      exact congrArg Prod.snd hrow
  have hsource : ∀ r ∈ table.rows, ∃ c ∈ b :: attempts, Inserted r c := by
    intro r hr
    rcases (Rows.mem_insert? hinsert).mp hr with hold | rfl
    · obtain ⟨c, hc, hins⟩ := h.inserted r hold
      exact ⟨c, List.mem_cons_of_mem _ hc, hins⟩
    · exact ⟨b, List.mem_cons_self, hinserted⟩
  -- a row of the table is kept, or it is outlived
  have hkeep : ∀ r ∈ table.rows, ∀ c, Keeps r c →
      (∃ r ∈ final.rows, Keeps r c) ∨ 1000 ≤ (newer (b :: attempts) c).length := by
    intro r hr c hkeeps
    by_cases hstays : r ∈ final.rows
    · exact .inl ⟨r, hstays, hkeeps⟩
    · obtain ⟨hmine, kept, hlength, hnodup, hkept⟩ := Rows.newest_dropped hr hstays
      right
      rw [← hlength]
      refine length_newer_of_kept hkeeps hnodup fun other hother => ?_
      obtain ⟨hin, hotherMine, htime, hne⟩ := hkept other hother
      have hotherTable := Rows.mem_of_keepNewest hin
      have hhandle : other.handle = b.handle := of_decide_eq_true hotherMine
      have hrHandle : r.handle = b.handle := of_decide_eq_true hmine
      exact ⟨hhandle.trans hrHandle.symm, htime, hne, (hkeyed other hotherTable).1,
        hsource other hotherTable⟩
  refine ⟨fun r hr => hkeyed r (Rows.mem_of_keepNewest hr),
    fun r hr => hsource r (Rows.mem_of_keepNewest hr), fun c hc hnew => ?_, ⟨?_, ?_, ?_⟩, h.told⟩
  · rcases List.mem_cons.mp hc with rfl | hc
    · refine hkeep row ((Rows.mem_insert? hinsert).mpr (.inr rfl)) c ⟨hrow, ?_⟩
      exact le_of_eq hinserted.2.2.2.2
    · rcases h.kept c hc hnew with ⟨r, hr, hkeeps⟩ | houtlived
      · exact hkeep r ((Rows.mem_insert? hinsert).mpr (.inl hr)) c hkeeps
      · exact .inr (houtlived.trans length_newer_cons)
  · intro hrepeats
    rw [hinserted.1] at hrepeats
    exact absurd hrepeats (by simp [ClaimState.repeats])
  · exact fun _ => hinserted.1
  · intro _ a ha hanew hahandle haid
    rcases h.kept a ha hanew with ⟨r, hr, hkey, -⟩ | houtlived
    · rw [← haid, ← hahandle, ← hkey] at hfree
      exact absurd (hfree.symm.trans (Rows.find?_eq_some.mpr ⟨hr, rfl⟩)) (by simp)
    · exact houtlived

end

/-! ### What each piece does to the claims -/

/-- The claim whose run the call is about to start. -/
def pending : Frame → Option Attempt
  | .accepting _ _ attempt => attempt
  | _ => none

/-- What a frame says of the claims. -/
def FrameClaims (s : WebhookState) : Frame → Prop
  | .accepting x _ attempt => ∀ a, attempt = some a → a ∈ s.attempts ∧ a.state = .new ∧
      a.handle = x.delivery.handle ∧ ∀ r ∈ s.runs, r.attempt ≠ some a
  | .recording d _ attempt response => response.repeats = true → ∃ a, attempt = some a ∧
      a ∈ s.attempts ∧ a.handle = d.handle ∧ a.state.repeats = true
  | _ => True

/-- A frame that says nothing of the claims. -/
def Quiet : Frame → Prop
  | .accepting _ _ attempt => attempt = none
  | .recording _ _ _ response => response.repeats = false
  | _ => True

theorem Quiet.claims {f : Frame} (h : Quiet f) (s : WebhookState) :
    FrameClaims s f ∧ pending f = none := by
  cases f with
  | accepting x params attempt => exact ⟨fun a ha => absurd (h.symm.trans ha) (by simp), h⟩
  | recording d record attempt response =>
    exact ⟨fun hrepeats => absurd (h.symm.trans hrepeats) (by simp), rfl⟩
  | _ => exact ⟨trivial, rfl⟩

theorem rejected_repeats {status : ℕ} {reason : Text} (h : status ≠ 409) :
    (rejected status reason).repeats = false := by
  unfold rejected
  split_ifs <;> simp_all [Response.repeats]

theorem reject_quiet {d : Delivery} {status : ℕ} {reason : Text} {bodyBytes : Lib.Num}
    (h : status ≠ 409) : Quiet (reject d status reason bodyBytes) := rejected_repeats h

theorem afterAdmission_quiet (p : Platform) (d : Delivery) (adm : Admission) :
    Quiet (afterAdmission p d adm) := by
  unfold afterAdmission
  dsimp only
  split
  · exact reject_quiet (by decide)
  · trivial

theorem afterSignature_quiet (x : Passed) : Quiet (afterSignature x) := by
  unfold afterSignature
  extract_lets definition body bodyBytes params
  split
  · exact reject_quiet (by decide)
  · split
    · exact reject_quiet (by decide)
    · exact rfl
    · trivial

theorem afterBody_quiet (p : Platform) (d : Delivery) (adm : Admission) :
    Quiet (afterBody p d adm) := by
  unfold afterBody
  extract_lets definition bodyBytes
  split
  · exact reject_quiet (by decide)
  · split
    · exact reject_quiet (by decide)
    · split
      · exact afterSignature_quiet _
      · dsimp only
        split
        · exact reject_quiet (by decide)
        · split
          · exact reject_quiet (by decide)
          · trivial

/-- What the tables and the lists say of the claims. -/
structure Claims (p : Platform) (s : WebhookState) : Prop where
  ledger : Ledger p s.idempotency s.attempts
  numbers : ∀ a ∈ s.attempts, a.number < s.attempts.length
  runs : ∀ r ∈ s.runs, ∀ a, r.attempt = some a →
    a ∈ s.attempts ∧ a.state = .new ∧ a.handle = r.passed.delivery.handle
  once : (s.runs.filterMap RunStart.attempt).Nodup
  answers : ∀ x ∈ s.answers, x.response.repeats = true → ∃ a, x.attempt = some a ∧
    a ∈ s.attempts ∧ a.handle = x.handle ∧ a.state.repeats = true

/-- What a piece does to the claims: nothing, a claim, or the start of a run. -/
inductive Does (s s' : WebhookState) (f : Frame) (out : Frame ⊕ Ret) : Prop where
  | nothing (attempts : s'.attempts = s.attempts) (runs : s'.runs = s.runs)
      (before : pending f = none) (after : ∀ f', out = .inl f' → pending f' = none)
  | claim (a : Attempt) (attempts : s'.attempts = a :: s.attempts) (runs : s'.runs = s.runs)
      (before : pending f = none) (fresh : a ∉ s.attempts)
      (after : ∀ f', out = .inl f' → pending f' = if a.state = .new then some a else none)
      (goes : ∃ f', out = .inl f')
  | run (r : RunStart) (attempts : s'.attempts = s.attempts) (runs : s'.runs = r :: s.runs)
      (before : r.attempt = pending f) (after : ∀ f', out = .inl f' → pending f' = none)

section
variable {p : Platform} {s s' : WebhookState} {f : Frame} {out : Frame ⊕ Ret} {i : Input}

/-- A piece that claims and starts nothing. -/
theorem Claims.congr (h : Claims p s) (hattempts : s'.attempts = s.attempts)
    (hruns : s'.runs = s.runs) (hledger : Ledger p s'.idempotency s.attempts)
    (hanswers : ∀ x ∈ s'.answers, x ∈ s.answers ∨ x.response.repeats = false) : Claims p s' := by
  refine ⟨hattempts ▸ hledger, hattempts ▸ h.numbers, fun r hr a ha => ?_, hruns ▸ h.once,
    fun x hx hrepeats => ?_⟩
  · rw [hattempts]
    exact h.runs r (hruns ▸ hr) a ha
  · rw [hattempts]
    rcases hanswers x hx with hold | hnot
    · exact h.answers x hold hrepeats
    · exact absurd (hnot.symm.trans hrepeats) (by simp)

/-- What a piece keeps of the claims, and what it does to them. -/
def Kept (p : Platform) (s s' : WebhookState) (f : Frame) (out : Frame ⊕ Ret) : Prop :=
  Claims p s' ∧ (∀ f', out = .inl f' → FrameClaims s' f') ∧ Does s s' f out

/-- A piece that goes on with a quiet frame. -/
theorem kept_frame {f' : Frame} (hs : Claims p s) (hbefore : pending f = none) (hquiet : Quiet f')
    (hattempts : s'.attempts = s.attempts) (hruns : s'.runs = s.runs)
    (hidempotency : s'.idempotency = s.idempotency) (hanswers : s'.answers = s.answers) :
    Kept p s s' f (.inl f') := by
  refine ⟨?_, fun f'' hf'' => ?_, .nothing hattempts hruns hbefore fun f'' hf'' => ?_⟩
  · refine hs.congr hattempts hruns ?_ fun x hx => .inl (hanswers ▸ hx)
    rw [hidempotency]
    exact hs.ledger
  · rw [← Sum.inl.inj hf'']
    exact (hquiet.claims s').1
  · rw [← Sum.inl.inj hf'']
    exact (hquiet.claims s').2

/-- A piece that returns, with no answer or an answer that repeats nothing. -/
theorem kept_ret {r : Ret} (hs : Claims p s) (hbefore : pending f = none)
    (hattempts : s'.attempts = s.attempts) (hruns : s'.runs = s.runs)
    (hledger : Ledger p s'.idempotency s.attempts)
    (hanswers : ∀ x ∈ s'.answers, x ∈ s.answers ∨ x.response.repeats = false) :
    Kept p s s' f (.inr r) :=
  ⟨hs.congr hattempts hruns hledger hanswers, fun f' hf' => absurd hf' (by simp),
    .nothing hattempts hruns hbefore fun f' hf' => absurd hf' (by simp)⟩

theorem mem_answer {handle : Text} {attempt : Option Attempt} {response : Response}
    (h : response.repeats = false) :
    ∀ x ∈ (s.answer handle attempt response).answers, x ∈ s.answers ∨ x.response.repeats = false := by
  intro x hx
  rcases List.mem_cons.mp hx with rfl | hold
  · exact .inr h
  · exact .inl hold

/-! ### The pieces -/

theorem startPiece_kept {call : Call} (hs : Claims p s)
    (h : startPiece p s i call = (s', out)) : Kept p s s' (.start call) out := by
  cases call with
  | deliver request =>
    unfold startPiece at h
    dsimp only at h
    split at h
    · rename_i response hresponse
      obtain ⟨rfl, rfl⟩ := Prod.mk.inj h
      refine kept_ret hs rfl rfl rfl hs.ledger (mem_answer ?_)
      -- the answers to a malformed request
      unfold deliveryOf at hresponse
      split at hresponse
      · split at hresponse
        · rw [← Except.error.inj hresponse]
          exact rejected_repeats (by decide)
        · split at hresponse
          · rw [← Except.error.inj hresponse]
            rfl
          · exact absurd hresponse (by simp)
      · rw [← Except.error.inj hresponse]
        rfl
    · obtain ⟨rfl, rfl⟩ := Prod.mk.inj h
      exact kept_frame hs rfl trivial rfl rfl rfl rfl
  | webhookRotate handle =>
    unfold startPiece at h
    dsimp only at h
    split at h
    · obtain ⟨rfl, rfl⟩ := Prod.mk.inj h
      exact kept_ret hs rfl rfl rfl hs.ledger fun x hx => .inl hx
    · obtain ⟨rfl, rfl⟩ := Prod.mk.inj h
      exact kept_frame hs rfl trivial rfl rfl rfl rfl
  | webhookSetEnabled handle enabled =>
    unfold startPiece at h
    dsimp only at h
    split at h
    · obtain ⟨rfl, rfl⟩ := Prod.mk.inj h
      exact kept_ret hs rfl rfl rfl hs.ledger fun x hx => .inl hx
    · obtain ⟨rfl, rfl⟩ := Prod.mk.inj h
      exact kept_ret hs rfl rfl rfl hs.ledger fun x hx => .inl hx
  | packageWrite name manifest =>
    obtain ⟨rfl, rfl⟩ := Prod.mk.inj h
    exact kept_ret hs rfl rfl rfl hs.ledger fun x hx => .inl hx
  | secretWrite secrets =>
    obtain ⟨rfl, rfl⟩ := Prod.mk.inj h
    exact kept_ret hs rfl rfl rfl hs.ledger fun x hx => .inl hx

/-- An admission leaves the claims, the runs and the answers alone; no refusal is a conflict. -/
theorem webhookAdmit_frame {d : Delivery} {now : ℕ} {row : WebhookRow}
    {r : Except (ℕ × Text) Admission} (h : webhookAdmit p s d now row = (r, s')) :
    (s'.attempts = s.attempts ∧ s'.runs = s.runs ∧ s'.idempotency = s.idempotency ∧
      s'.answers = s.answers) ∧ ∀ refusal, r = .error refusal → refusal.1 ≠ 409 := by
  unfold webhookAdmit at h
  split at h
  · obtain ⟨rfl, rfl⟩ := Prod.mk.inj h
    exact ⟨⟨rfl, rfl, rfl, rfl⟩, fun refusal hr => Except.error.inj hr ▸ (by decide)⟩
  · split at h
    · obtain ⟨rfl, rfl⟩ := Prod.mk.inj h
      exact ⟨⟨rfl, rfl, rfl, rfl⟩, fun refusal hr => Except.error.inj hr ▸ (by decide)⟩
    · split at h
      · obtain ⟨rfl, rfl⟩ := Prod.mk.inj h
        exact ⟨⟨rfl, rfl, rfl, rfl⟩, fun refusal hr => Except.error.inj hr ▸ (by decide)⟩
      · dsimp only at h
        split at h
        · obtain ⟨rfl, rfl⟩ := Prod.mk.inj h
          exact ⟨⟨rfl, rfl, rfl, rfl⟩, fun refusal hr => Except.error.inj hr ▸ (by decide)⟩
        · obtain ⟨rfl, rfl⟩ := Prod.mk.inj h
          exact ⟨⟨rfl, rfl, rfl, rfl⟩, fun refusal hr => absurd hr (by simp)⟩

theorem admitPiece_kept {d : Delivery} {now : ℕ} {row : WebhookRow} (hs : Claims p s) :
    Kept p s (admitPiece p s d now row).1 (.hashing d now row)
      (.inl (admitPiece p s d now row).2) := by
  unfold admitPiece
  cases hadmit : webhookAdmit p s d now row with
  | mk r s' =>
    obtain ⟨⟨hattempts, hruns, hidempotency, hanswers⟩, hrefusal⟩ := webhookAdmit_frame hadmit
    cases r with
    | error refusal =>
      obtain ⟨status, reason⟩ := refusal
      have hstatus : status ≠ 409 := hrefusal _ rfl
      exact kept_frame hs rfl (rejected_repeats hstatus) hattempts hruns hidempotency hanswers
    | ok adm =>
      exact kept_frame hs rfl (afterAdmission_quiet p d adm) hattempts hruns hidempotency hanswers

theorem signaturePiece_kept {d : Delivery} {adm : Admission} {v : WebhookVerification}
    {candidates : List Text} {message : Text} (hs : Claims p s)
    (h : signaturePiece p s d adm v candidates message = (s', out)) :
    Kept p s s' (.checkingSignature d adm v candidates message) out := by
  unfold signaturePiece at h
  split at h
  · obtain ⟨rfl, rfl⟩ := Prod.mk.inj h
    exact kept_ret hs rfl rfl rfl hs.ledger (mem_answer rfl)
  · obtain ⟨rfl, rfl⟩ := Prod.mk.inj h
    exact kept_frame hs rfl (reject_quiet (by decide)) rfl rfl rfl rfl
  · split at h
    · obtain ⟨rfl, rfl⟩ := Prod.mk.inj h
      exact kept_frame hs rfl (afterSignature_quiet _) rfl rfl rfl rfl
    · obtain ⟨rfl, rfl⟩ := Prod.mk.inj h
      exact kept_frame hs rfl (reject_quiet (by decide)) rfl rfl rfl rfl

/-- The claim that a claim piece makes. -/
def claimOf (p : Platform) (s : WebhookState) (x : Passed) (id : DeliveryId) (now : ℕ) : Attempt :=
  ⟨s.attempts.length, x.delivery.handle, id, x.delivery.request.body, now,
    (webhookIdempotencyClaim p s x.delivery.handle id x.delivery.request.body now).1⟩

/-- **The ledger after a claim.** -/
theorem Ledger.claim {x : Passed} {id : DeliveryId} {now : ℕ} (h : Ledger p s.idempotency s.attempts)
    (hdistinct : KeyDistinct p s x.delivery.handle id x.delivery.request.body) :
    Ledger p (webhookIdempotencyClaim p s x.delivery.handle id x.delivery.request.body now).2
      (claimOf p s x id now :: s.attempts) := by
  cases hfind : s.idempotency.find? (x.delivery.handle, id.key) with
  | some row =>
    obtain ⟨hid, hbody⟩ := hdistinct row hfind
    have hclaim : webhookIdempotencyClaim p s x.delivery.handle id x.delivery.request.body now =
        (row.claimState (id.payloadHash p x.delivery.request.body), s.idempotency) := by
      unfold webhookIdempotencyClaim
      rw [hfind]
    have hstate : (claimOf p s x id now).state =
        row.claimState (id.payloadHash p x.delivery.request.body) := congrArg Prod.fst hclaim
    rw [hclaim]
    exact h.found hfind hid hbody hstate
  | none =>
    let new : IdempotencyRow := ⟨x.delivery.handle, id.key,
      id.payloadHash p x.delivery.request.body, none, .running, none, now, id,
      x.delivery.request.body⟩
    have hnew : s.idempotency.find? new.primaryKey = none := hfind
    obtain ⟨table, htable⟩ := Rows.exists_insert? hnew
    have hclaim : webhookIdempotencyClaim p s x.delivery.handle id x.delivery.request.body now =
        (.new, table.keepNewest (fun row => decide (row.handle = x.delivery.handle))
          IdempotencyRow.createdAt 1000) := by
      unfold webhookIdempotencyClaim
      rw [hfind]
      dsimp only
      rw [htable]
      rfl
    have hstate : (claimOf p s x id now).state = .new := congrArg Prod.fst hclaim
    rw [hclaim]
    exact h.claimed hfind rfl htable ⟨hstate, rfl, rfl, rfl, rfl⟩ rfl

/-- What follows a claim: a new one is pending, an answer that repeats is of one that does. -/
theorem afterClaim_claims {x : Passed} {params : Option (List (Text × Json))} {a : Attempt}
    (hmem : a ∈ s.attempts) (hhandle : a.handle = x.delivery.handle)
    (hruns : ∀ r ∈ s.runs, r.attempt ≠ some a) :
    FrameClaims s (afterClaim x params a) ∧
      pending (afterClaim x params a) = if a.state = .new then some a else none := by
  unfold afterClaim
  extract_lets d ack replayed
  cases hstate : a.state with
  | new =>
    refine ⟨fun b hb => ?_, rfl⟩
    obtain rfl := Option.some.inj hb
    exact ⟨hmem, hstate, hhandle, hruns⟩
  | inProgress => exact ⟨fun _ => ⟨a, rfl, hmem, hhandle, by rw [hstate]; rfl⟩, rfl⟩
  | conflict => exact ⟨fun hrepeats => absurd hrepeats (by decide), rfl⟩
  | replay runId resultJson status =>
    exact ⟨fun _ => ⟨a, rfl, hmem, hhandle, by rw [hstate]; rfl⟩, rfl⟩

/-- **Step lemma, a claim.** -/
theorem claimPiece_kept {x : Passed} {params : Option (List (Text × Json))} {id : DeliveryId}
    {now : ℕ} (hs : Claims p s)
    (hdistinct : KeyDistinct p s x.delivery.handle id x.delivery.request.body) :
    Kept p s (claimPiece p s x params id now).1 (.claiming x params id)
      (.inl (claimPiece p s x params id now).2) := by
  have hfresh : claimOf p s x id now ∉ s.attempts := by
    intro hmem
    exact absurd (hs.numbers _ hmem) (Nat.lt_irrefl _)
  have hafter := @afterClaim_claims (claimPiece p s x params id now).1 x params (claimOf p s x id now)
    List.mem_cons_self rfl fun r hr heq => hfresh (hs.runs r hr _ heq).1
  refine ⟨⟨hs.ledger.claim hdistinct, fun a ha => ?_, fun r hr a ha => ?_, hs.once,
    fun y hy hrepeats => ?_⟩, fun f' hf' => ?_, .claim (claimOf p s x id now) rfl rfl rfl hfresh
    (fun f' hf' => ?_) ⟨_, rfl⟩⟩
  · show a.number < s.attempts.length + 1
    rcases List.mem_cons.mp ha with rfl | hold
    · exact Nat.lt_succ_self _
    · have := hs.numbers a hold
      omega
  · obtain ⟨hmem, hrest⟩ := hs.runs r hr a ha
    exact ⟨List.mem_cons_of_mem _ hmem, hrest⟩
  · obtain ⟨a, ha, hmem, hrest⟩ := hs.answers y hy hrepeats
    exact ⟨a, ha, List.mem_cons_of_mem _ hmem, hrest⟩
  · rw [← Sum.inl.inj hf']
    exact hafter.1
  · rw [← Sum.inl.inj hf']
    exact hafter.2

/-- A piece that starts a run, of a claim that was not run yet if it is of one. -/
theorem kept_run {f' : Frame} (r : RunStart) (hs : Claims p s) (hbefore : r.attempt = pending f)
    (hr : ∀ a, r.attempt = some a → a ∈ s.attempts ∧ a.state = .new ∧
      a.handle = r.passed.delivery.handle ∧ ∀ other ∈ s.runs, other.attempt ≠ some a)
    (hquiet : Quiet f') (hattempts : s'.attempts = s.attempts) (hruns : s'.runs = r :: s.runs)
    (hidempotency : s'.idempotency = s.idempotency)
    (hanswers : ∀ x ∈ s'.answers, x ∈ s.answers ∨ x.response.repeats = false) :
    Kept p s s' f (.inl f') := by
  refine ⟨⟨?_, hattempts ▸ hs.numbers, fun r' hr' a ha => ?_, ?_, fun x hx hrepeats => ?_⟩,
    fun f'' hf'' => ?_, .run r hattempts hruns hbefore fun f'' hf'' => ?_⟩
  · rw [hattempts, hidempotency]
    exact hs.ledger
  · rw [hattempts]
    rw [hruns] at hr'
    rcases List.mem_cons.mp hr' with rfl | hold
    · obtain ⟨hmem, hnew, hhandle, -⟩ := hr a ha
      exact ⟨hmem, hnew, hhandle⟩
    · exact hs.runs r' hold a ha
  · rw [hruns]
    cases hattempt : r.attempt with
    | none =>
      rw [List.filterMap_cons_none hattempt]
      exact hs.once
    | some a =>
      rw [List.filterMap_cons_some hattempt]
      refine List.nodup_cons.mpr ⟨fun hmem => ?_, hs.once⟩
      obtain ⟨other, hother, heq⟩ := List.mem_filterMap.mp hmem
      exact (hr a hattempt).2.2.2 other hother heq
  · rw [hattempts]
    rcases hanswers x hx with hold | hnot
    · exact hs.answers x hold hrepeats
    · exact absurd (hnot.symm.trans hrepeats) (by simp)
  · rw [← Sum.inl.inj hf'']
    exact (hquiet.claims s').1
  · rw [← Sum.inl.inj hf'']
    exact (hquiet.claims s').2

/-- **Step lemma, the start of a run.** -/
theorem acceptPiece_kept {x : Passed} {params : Option (List (Text × Json))}
    {attempt : Option Attempt} {f' : Frame} (hs : Claims p s)
    (hf : FrameClaims s (.accepting x params attempt))
    (h : acceptPiece s x params attempt i = some (s', f')) :
    Kept p s s' (.accepting x params attempt) (.inl f') := by
  unfold acceptPiece at h
  extract_lets ack record at h
  obtain ⟨s₁, hrecord, heq⟩ := Option.map_eq_some_iff.mp h
  unfold webhookDeliveryRecord at hrecord
  obtain ⟨deliveries, -, rfl⟩ := Option.map_eq_some_iff.mp hrecord
  obtain ⟨rfl, rfl⟩ := Prod.mk.inj heq
  by_cases hack : ack = true
  · rw [if_pos hack]
    exact kept_run ⟨x, attempt, runParams x params i.id⟩ hs rfl hf trivial rfl rfl rfl (mem_answer rfl)
  · rw [if_neg hack]
    exact kept_run ⟨x, attempt, runParams x params i.id⟩ hs rfl hf trivial rfl rfl rfl fun y hy => .inl hy

/-- The answer of a synchronous delivery repeats nothing. -/
theorem conclude_answers {x : Passed} {attempt : Option Attempt} {deliveryId : Text}
    {outcome : RunEnd} : ∃ answers, conclude s x attempt deliveryId outcome =
      { s with answers := answers } ∧ ∀ y ∈ answers, y ∈ s.answers ∨ y.response.repeats = false := by
  unfold conclude
  split
  · exact ⟨s.answers, rfl, fun y hy => .inl hy⟩
  · refine ⟨_, rfl, mem_answer ?_⟩
    cases outcome with
    | threw message => rfl
    | finished ok runId result error => rfl

theorem finishPiece_kept {x : Passed} {attempt : Option Attempt} {deliveryId : Text}
    {outcome : RunEnd} {now : ℕ} (hs : Claims p s)
    (h : finishPiece s x attempt deliveryId outcome now = (s', out)) :
    Kept p s s' (.finishing x attempt deliveryId outcome) out := by
  unfold finishPiece at h
  extract_lets s₁ at h
  have hledger : ∃ deliveries, s₁ = { s with deliveries := deliveries } := by
    cases outcome with
    | threw message => exact ⟨_, rfl⟩
    | finished ok runId result error => exact ⟨_, rfl⟩
  obtain ⟨deliveries, hs₁⟩ := hledger
  split at h
  · obtain ⟨answers, hconclude, hanswers⟩ := @conclude_answers s₁ x none deliveryId outcome
    rw [hs₁] at hanswers
    rw [hconclude, hs₁] at h
    obtain ⟨rfl, rfl⟩ := Prod.mk.inj h
    exact kept_ret hs rfl rfl rfl hs.ledger hanswers
  · rw [hs₁] at h
    obtain ⟨rfl, rfl⟩ := Prod.mk.inj h
    exact kept_frame hs rfl trivial rfl rfl rfl rfl

/-- The end of a run changes no column that says what was claimed. -/
theorem Ledger.finish {rows : Rows IdempotencyRow.primaryKey} {attempts : List Attempt}
    (h : Ledger p rows attempts) {change : IdempotencyRow → IdempotencyRow}
    (hkey : ∀ row, (change row).primaryKey = row.primaryKey)
    (hchange : ∀ row, (change row).id = row.id ∧ (change row).body = row.body ∧
      (change row).payloadHash = row.payloadHash ∧ (change row).createdAt = row.createdAt) :
    Ledger p (rows.map change hkey) attempts := by
  have hcolumns : ∀ row, (change row).handle = row.handle ∧ (change row).key = row.key :=
    fun row => Prod.mk.inj (hkey row)
  refine ⟨fun row hrow => ?_, fun row hrow => ?_, fun a ha hnew => ?_, h.told⟩
  · obtain ⟨old, hold, rfl⟩ := Rows.mem_map.mp hrow
    obtain ⟨hid, hbody, hhash, -⟩ := hchange old
    rw [(hcolumns old).2, hid, hbody, hhash]
    exact h.keyed old hold
  · obtain ⟨old, hold, rfl⟩ := Rows.mem_map.mp hrow
    obtain ⟨hid, hbody, -, hcreated⟩ := hchange old
    obtain ⟨a, ha, hinserted⟩ := h.inserted old hold
    refine ⟨a, ha, ?_⟩
    unfold Inserted
    rw [(hcolumns old).1, hid, hbody, hcreated]
    exact hinserted
  · rcases h.kept a ha hnew with ⟨row, hrow, hprimary, hcreated⟩ | houtlived
    · refine .inl ⟨change row, Rows.mem_map.mpr ⟨row, hrow, rfl⟩, (hkey row).trans hprimary, ?_⟩
      rw [(hchange row).2.2.2]
      exact hcreated
    · exact .inr houtlived

theorem idempotencyFinish_ledger {handle key : Text} {status : IdempotencyStatus}
    {runId resultJson : Option Text} (h : Ledger p s.idempotency s.attempts) :
    Ledger p (webhookIdempotencyFinish s handle key status runId resultJson).idempotency
      s.attempts := by
  unfold webhookIdempotencyFinish
  refine h.finish ?_ fun row => ?_
  · intro row
    split <;> rfl
  · split
    · exact ⟨rfl, rfl, rfl, rfl⟩
    · exact ⟨rfl, rfl, rfl, rfl⟩

theorem finishClaimPiece_kept {x : Passed} {attempt : Option Attempt} {deliveryId : Text}
    {outcome : RunEnd} (hs : Claims p s) :
    Kept p s (finishClaimPiece s x attempt deliveryId outcome)
      (.finishingClaim x attempt deliveryId outcome) (.inr .delivered) := by
  unfold finishClaimPiece
  extract_lets s₁
  have hledger : ∃ idempotency, s₁ = { s with idempotency := idempotency } ∧
      Ledger p idempotency s.attempts := by
    cases attempt with
    | none => exact ⟨s.idempotency, rfl, hs.ledger⟩
    | some a =>
      cases outcome with
      | threw message => exact ⟨_, rfl, idempotencyFinish_ledger hs.ledger⟩
      | finished ok runId result error => exact ⟨_, rfl, idempotencyFinish_ledger hs.ledger⟩
  obtain ⟨idempotency, hs₁, hledger⟩ := hledger
  obtain ⟨answers, hconclude, hanswers⟩ := @conclude_answers s₁ x attempt deliveryId outcome
  rw [hs₁] at hanswers
  rw [hconclude, hs₁]
  exact kept_ret hs rfl rfl rfl hledger hanswers

/-- **Step lemma, an answer that was written down.** -/
theorem recordPiece_kept {d : Delivery} {record : DeliveryRecord} {attempt : Option Attempt}
    {response : Response} (hs : Claims p s) (hf : FrameClaims s (.recording d record attempt response))
    {deliveries : Rows DeliveryRow.id} :
    Kept p s (WebhookState.answer { s with deliveries := deliveries } d.handle attempt response)
      (.recording d record attempt response) (.inr .delivered) := by
  refine ⟨⟨hs.ledger, hs.numbers, hs.runs, hs.once, fun x hx hrepeats => ?_⟩,
    fun f' hf' => absurd hf' (by simp), .nothing rfl rfl rfl fun f' hf' => absurd hf' (by simp)⟩
  rcases List.mem_cons.mp hx with rfl | hold
  · exact hf hrepeats
  · exact hs.answers x hold hrepeats

/-- **Step lemma.** -/
theorem piece_kept (hs : Claims p s) (hf : FrameClaims s f) (hdistinct : FrameDistinct p s f)
    (h : piece p s f i = some (s', out)) : Kept p s s' f out := by
  cases f with
  | start call => exact startPiece_kept hs (Option.some.inj h)
  | lookingUp d =>
    unfold piece at h
    dsimp only at h
    split at h
    · obtain ⟨rfl, rfl⟩ := Prod.mk.inj (Option.some.inj h)
      exact kept_frame hs rfl trivial rfl rfl rfl rfl
    · obtain ⟨rfl, rfl⟩ := Prod.mk.inj (Option.some.inj h)
      exact kept_ret hs rfl rfl rfl hs.ledger (mem_answer (rejected_repeats (by decide)))
  | admitting d now =>
    unfold piece at h
    dsimp only at h
    split at h
    · obtain ⟨rfl, rfl⟩ := Prod.mk.inj (Option.some.inj h)
      exact kept_ret hs rfl rfl rfl hs.ledger (mem_answer (rejected_repeats (by decide)))
    · obtain ⟨rfl, rfl⟩ := Prod.mk.inj (Option.some.inj h)
      exact kept_frame hs rfl trivial rfl rfl rfl rfl
  | hashing d now row =>
    obtain ⟨rfl, rfl⟩ := Prod.mk.inj (Option.some.inj h)
    exact admitPiece_kept hs
  | readingBody d adm =>
    obtain ⟨rfl, rfl⟩ := Prod.mk.inj (Option.some.inj h)
    exact kept_frame hs rfl (afterBody_quiet p d adm) rfl rfl rfl rfl
  | checkingSignature d adm v candidates message => exact signaturePiece_kept hs (Option.some.inj h)
  | claiming x params id =>
    obtain ⟨rfl, rfl⟩ := Prod.mk.inj (Option.some.inj h)
    exact claimPiece_kept hs hdistinct
  | accepting x params attempt =>
    obtain ⟨⟨s₁, f₁⟩, haccept, heq⟩ := Option.map_eq_some_iff.mp h
    obtain ⟨rfl, rfl⟩ := Prod.mk.inj heq
    exact acceptPiece_kept hs hf haccept
  | running x attempt deliveryId =>
    obtain ⟨rfl, rfl⟩ := Prod.mk.inj (Option.some.inj h)
    exact kept_frame hs rfl trivial rfl rfl rfl rfl
  | finishing x attempt deliveryId outcome => exact finishPiece_kept hs (Option.some.inj h)
  | finishingClaim x attempt deliveryId outcome =>
    obtain ⟨rfl, rfl⟩ := Prod.mk.inj (Option.some.inj h)
    exact finishClaimPiece_kept hs
  | recording d record attempt response =>
    obtain ⟨s₁, hrecord, heq⟩ := Option.map_eq_some_iff.mp h
    unfold webhookDeliveryRecord at hrecord
    obtain ⟨deliveries, -, rfl⟩ := Option.map_eq_some_iff.mp hrecord
    obtain ⟨rfl, rfl⟩ := Prod.mk.inj heq
    exact recordPiece_kept hs hf
  | rotating handle =>
    obtain ⟨rfl, rfl⟩ := Prod.mk.inj (Option.some.inj h)
    exact kept_ret hs rfl rfl rfl hs.ledger fun x hx => .inl hx

end

/-! ### Runs -/

section
variable {p : Platform} {g g' : Coop.Config (webhooks p)}

/-- The call on the thread is about to start the run of the claim. -/
def Pending (g : Coop.Config (webhooks p)) (t : ℕ) (a : Attempt) : Prop :=
  ∃ c f, g.pool t = some (c, f) ∧ pending f = some a

/-- What holds in every state that distinct steps reach. -/
structure DeliveryInv (p : Platform) (g : Coop.Config (webhooks p)) : Prop where
  claims : Claims p g.shared
  frames : ∀ t c f, g.pool t = some (c, f) → FrameClaims g.shared f
  unique : @Coop.Unique (webhooks p) Attempt pending g
  covered : ∀ a ∈ g.shared.attempts, a.state = .new →
    (∃ r ∈ g.shared.runs, r.attempt = some a) ∨ ∃ t, Pending g t a

/-- A frame of another call still says the truth. -/
theorem FrameClaims.other {s s' : WebhookState} {f : Frame} (h : FrameClaims s f)
    (hattempts : ∀ a ∈ s.attempts, a ∈ s'.attempts)
    (hruns : ∀ r ∈ s'.runs, r ∈ s.runs ∨ ∀ a, pending f = some a → r.attempt ≠ some a) :
    FrameClaims s' f := by
  cases f with
  | accepting x params attempt =>
    intro a ha
    obtain ⟨hmem, hnew, hhandle, hnot⟩ := h a ha
    refine ⟨hattempts a hmem, hnew, hhandle, fun r hr => ?_⟩
    rcases hruns r hr with hold | hother
    · exact hnot r hold
    · exact hother a ha
  | recording d record attempt response =>
    intro hrepeats
    obtain ⟨a, ha, hmem, hrest⟩ := h hrepeats
    exact ⟨a, ha, hattempts a hmem, hrest⟩
  | _ => trivial

theorem DeliveryInv.call (h : DeliveryInv p g) {t : ℕ} {c : (webhooks p).Call}
    (hfree : g.pool t = none) :
    DeliveryInv p { g with pool := Function.update g.pool t (some (c, (webhooks p).start c)) } := by
  refine ⟨h.claims, fun u c' f hu => ?_, h.unique.call rfl, fun a ha hnew => ?_⟩
  · rcases Coop.pool_update_cases hu with ⟨-, heq⟩ | ⟨-, hold⟩
    · obtain ⟨-, rfl⟩ := Prod.mk.inj (Option.some.inj heq)
      trivial
    · exact h.frames u c' f hold
  · rcases h.covered a ha hnew with hrun | ⟨u, c', f, hu, hpending⟩
    · exact .inl hrun
    · have hut : u ≠ t := by
        rintro rfl
        exact absurd (hfree.symm.trans hu) (by simp)
      exact .inr ⟨u, c', f, (Function.update_of_ne hut ..).trans hu, hpending⟩

/-- **A piece keeps the invariant.** -/
theorem DeliveryInv.ran (h : DeliveryInv p g) {t : ℕ} {c : (webhooks p).Call} {f : (webhooks p).Frame}
    {i : (webhooks p).Input} {out : (webhooks p).Frame ⊕ (webhooks p).Ret}
    (hran : Coop.Ran g g' t c f i out) (hdistinct : FrameDistinct p g.shared f) :
    DeliveryInv p g' := by
  obtain ⟨hclaims, hout, hdoes⟩ :=
    piece_kept h.claims (h.frames t c f hran.before) hdistinct hran.runs
  have hattempts : ∀ a ∈ g.shared.attempts, a ∈ g'.shared.attempts := by
    intro a ha
    cases hdoes with
    | nothing hsame => exact hsame ▸ ha
    | claim b hcons => exact hcons ▸ List.mem_cons_of_mem _ ha
    | run r hsame => exact hsame ▸ ha
  -- a run that starts is of the claim that this call had pending, and no other call has it
  have hruns : ∀ u c' f', u ≠ t → g.pool u = some (c', f') → ∀ r ∈ g'.shared.runs,
      r ∈ g.shared.runs ∨ ∀ a, pending f' = some a → r.attempt ≠ some a := by
    intro u c' f' hut hu r hr
    cases hdoes with
    | nothing _ hsame => exact .inl (hsame ▸ hr)
    | claim b _ hsame => exact .inl (hsame ▸ hr)
    | run r₀ _ hcons hbefore =>
      rw [hcons] at hr
      rcases List.mem_cons.mp hr with rfl | hold
      · refine .inr fun a ha hra => hut ?_
        exact h.unique u t c' c f' f a hu hran.before ha (hbefore.symm.trans hra)
      · exact .inl hold
  refine ⟨hclaims, fun u c' f' hu => ?_, ?_, ?_⟩
  · rcases hran.pool u c' f' hu with ⟨hut, hold⟩ | ⟨-, -, heq⟩
    · exact (h.frames u c' f' hold).other hattempts (hruns u c' f' hut hold)
    · exact hout f' heq
  · refine h.unique.ran hran fun f' a hf' ha => .inr fun u c' f₁ hu ha₁ => ?_
    -- only a claim makes a call pending, and its claim is new
    cases hdoes with
    | nothing _ _ _ hafter => exact absurd ((hafter f' hf').symm.trans ha) (by simp)
    | claim b _ _ _ hfresh hafter =>
      have hb : b = a := by
        rw [hafter f' hf'] at ha
        split at ha
        · exact Option.some.inj ha
        · exact absurd ha (by simp)
      subst hb
      cases f₁ with
      | accepting x params attempt => exact hfresh (h.frames u c' _ hu b ha₁).1
      | _ => exact absurd ha₁ (by simp [pending])
    | run _ _ _ _ hafter => exact absurd ((hafter f' hf').symm.trans ha) (by simp)
  · intro a ha hnew
    have hold : a ∈ g.shared.attempts →
        (∃ r ∈ g'.shared.runs, r.attempt = some a) ∨ ∃ t, Pending g' t a := by
      intro hmem
      rcases h.covered a hmem hnew with ⟨r, hr, hra⟩ | ⟨u, c', f', hu, hpending⟩
      · left
        cases hdoes with
        | nothing _ hsame => exact ⟨r, hsame ▸ hr, hra⟩
        | claim b _ hsame => exact ⟨r, hsame ▸ hr, hra⟩
        | run r₀ _ hcons => exact ⟨r, hcons ▸ List.mem_cons_of_mem _ hr, hra⟩
      · by_cases hut : u = t
        · -- the pending call of this claim is the one that ran
          subst hut
          obtain ⟨-, rfl⟩ := Prod.mk.inj (Option.some.inj (hu.symm.trans hran.before))
          cases hdoes with
          | nothing _ _ hbefore => exact absurd (hbefore.symm.trans hpending) (by simp)
          | claim b _ _ hbefore => exact absurd (hbefore.symm.trans hpending) (by simp)
          | run r₀ _ hcons hbefore =>
            exact .inl ⟨r₀, hcons ▸ List.mem_cons_self, hbefore.trans hpending⟩
        · exact .inr ⟨u, c', f', (hran.others u hut).trans hu, hpending⟩
    cases hdoes with
    | nothing hsame => exact hold (hsame ▸ ha)
    | run _ hsame => exact hold (hsame ▸ ha)
    | claim b hcons hsame hbefore hfresh hafter hgoes =>
      rw [hcons] at ha
      rcases List.mem_cons.mp ha with rfl | hmem
      · obtain ⟨f', hf'⟩ := hgoes
        right
        refine ⟨t, c, f', ?_, ?_⟩
        · rcases hran.own with ⟨f'', heq, hpool, -⟩ | ⟨r, heq, -, -⟩
          · rw [hpool, Sum.inl.inj (heq.symm.trans hf')]
          · exact absurd (heq.symm.trans hf') (by simp)
        · rw [hafter f' hf', if_pos hnew]
      · exact hold hmem

end

/-- **Exactly once.** -/
structure ExactlyOnce {p : Platform} (g : Coop.Config (webhooks p)) : Prop where
  /-- An answer as a replay or as in progress repeats an earlier delivery. -/
  answers : ∀ x ∈ g.shared.answers, x.response.repeats = true → ∃ later b earlier,
    g.shared.attempts = later ++ b :: earlier ∧ x.attempt = some b ∧ b.handle = x.handle ∧
    ∃ a ∈ earlier, SameDelivery a b
  /-- A delivery whose id none before it carried on its handle is told that it is new. -/
  new : ∀ later b earlier, g.shared.attempts = later ++ b :: earlier →
    (∀ a ∈ earlier, a.handle = b.handle → a.id ≠ b.id) → b.state = .new
  /-- A new delivery is run, or its call is about to run it. -/
  run : ∀ a ∈ g.shared.attempts, a.state = .new →
    (∃ r ∈ g.shared.runs, r.attempt = some a) ∨ ∃ t, Pending g t a
  /-- It is run once, and only a new one is run. -/
  once : (g.shared.runs.filterMap RunStart.attempt).Nodup
  runs : ∀ r ∈ g.shared.runs, ∀ a, r.attempt = some a →
    a ∈ g.shared.attempts ∧ a.state = .new ∧ a.handle = r.passed.delivery.handle
  /-- One id is run twice only when a thousand newer ones came between. -/
  window : ∀ later b earlier, g.shared.attempts = later ++ b :: earlier → b.state = .new →
    ∀ a ∈ earlier, a.state = .new → a.handle = b.handle → a.id = b.id →
    1000 ≤ (newer earlier a).length

/-- **Webhook deliveries run exactly once**, in every run of distinct steps, for any interleaving of
    deliveries, whatever their handles, ids and times. -/
theorem deliveries_exactlyOnce {p : Platform} {rows : Rows WebhookRow.handle}
    {manifests : Text → Option PackageManifest} {secrets : List SecretRow}
    {g : Coop.Config (webhooks p)}
    (h : Reaches Coop.step (Distinct p) (Coop.idle (minted p rows manifests secrets)) g) :
    ExactlyOnce g := by
  have hinv : DeliveryInv p g := by
    refine h.invariant (DeliveryInv p) (fun g e g' hg hdistinct hstep => ?_) ?_
    · rcases Coop.step_ran hstep with ⟨t, c, rfl, hfree, rfl⟩ | ⟨t, i, c, f, out, rfl, hran⟩
      · exact hg.call hfree
      · exact hg.ran hran (hdistinct t i c f rfl hran.before)
    · have hnone : ∀ {α : Type} (a : α) (P : Prop), a ∈ ([] : List α) → P :=
        fun a P ha => absurd ha List.not_mem_nil
      refine ⟨⟨⟨fun r hr => hnone r _ hr, fun r hr => hnone r _ hr, fun a ha => hnone a _ ha, trivial⟩,
        fun a ha => hnone a _ ha, fun r hr => hnone r _ hr, List.nodup_nil,
        fun x hx => hnone x _ hx⟩, fun t c f ht => absurd ht (by simp [Coop.idle]),
        fun t u c c' f f' k ht => absurd ht (by simp [Coop.idle]), fun a ha => hnone a _ ha⟩
  refine ⟨fun x hx hrepeats => ?_, fun later b earlier heq => ?_, hinv.covered, hinv.claims.once,
    hinv.claims.runs, fun later b earlier heq => ?_⟩
  · obtain ⟨b, hb, hmem, hhandle, hstate⟩ := hinv.claims.answers x hx hrepeats
    obtain ⟨later, earlier, heq, htold⟩ := hinv.claims.ledger.told.told hmem
    exact ⟨later, b, earlier, heq, hb, hhandle, htold.repeats hstate⟩
  · have htold := hinv.claims.ledger.told
    rw [heq] at htold
    exact htold.split.new
  · have htold := hinv.claims.ledger.told
    rw [heq] at htold
    exact htold.split.window

/-! ### Examples -/

/-- Deliveries carry their id in a header. -/
def deliveryIdDefinition : WebhookDefinition :=
  sampleDefinition 60 none (some ⟨none, none, none, some "x-delivery"⟩)

def idDelivery (t : ℕ) (id : Text) : List (Coop.Event (webhooks samplePlatform)) :=
  deliveryRun t 60000 7 (sampleRequest [("x-delivery", id)] "\x7b\x7d")

/-- `Distinct` as a check. -/
def distinctCheck (g : Coop.Config (webhooks samplePlatform)) :
    Coop.Event (webhooks samplePlatform) → Bool
  | .call _ _ => true
  | .resume t _ =>
    match g.pool t with
    | some (_, .claiming x _ id) =>
      (g.shared.idempotency.find? (x.delivery.handle, id.key)).all fun row =>
        decide (row.id = id) && decide (x.delivery.request.body = row.body)
    | _ => true

theorem distinct_of_check {g : Coop.Config (webhooks samplePlatform)}
    {e : Coop.Event (webhooks samplePlatform)} (h : distinctCheck g e = true) :
    Distinct samplePlatform g e := by
  rintro t i c f rfl hpool
  unfold distinctCheck at h
  simp only [hpool] at h
  cases f with
  | claiming x params id =>
    intro row hrow
    dsimp only at h
    rw [hrow, Option.all_some, Bool.and_eq_true, decide_eq_true_eq, decide_eq_true_eq] at h
    exact ⟨h.1, fun _ _ _ => h.2⟩
  | _ => trivial

/-- A delivery that comes again is answered as one that did. -/
theorem deliveries_exactlyOnce_redelivery : ∃ g,
    execGuarded Coop.step distinctCheck (sampleIdle deliveryIdDefinition [])
      (idDelivery 0 "d-1" ++ idDelivery 1 "d-1" ++ idDelivery 2 "d-2") = some g ∧
    g.shared.attempts.map (fun a => decide (a.state = .new)) = [true, false, true] ∧
    ExactlyOnce g := by
  have hrun : (execGuarded Coop.step distinctCheck (sampleIdle deliveryIdDefinition [])
      (idDelivery 0 "d-1" ++ idDelivery 1 "d-1" ++ idDelivery 2 "d-2")).map
        (fun g => g.shared.attempts.map fun a => decide (a.state = .new)) =
      some [true, false, true] := by
    decide +kernel
  obtain ⟨g, hg, hseen⟩ := Option.map_eq_some_iff.mp hrun
  have hreaches := reaches_of_execGuarded (fun _ _ => distinct_of_check) hg
  exact ⟨g, hg, hseen, deliveries_exactlyOnce hreaches⟩

/-- Ids that differ behind their first two hundred characters. -/
def longId (last : Char) : Text := List.replicate maxIdempotencyKey 'a' ++ [last]

/-- **Cut off.**  Two deliveries with different ids of more than two hundred characters: the second
    is answered as in progress, and is never run. -/
theorem cutOff : ∃ g,
    @Reaches _ _ Coop.step (fun _ _ => True) (sampleIdle deliveryIdDefinition []) g ∧
    g.shared.runs.length = 1 ∧ ¬ ExactlyOnce g := by
  have hrun : (exec Coop.step (sampleIdle deliveryIdDefinition [])
      (idDelivery 0 (longId 'b') ++ idDelivery 1 (longId 'c'))).map
        (fun g => (g.shared.attempts, g.shared.runs.length)) =
      some ([⟨1, "whk_1", .delivery (longId 'c'), "\x7b\x7d", 60000, .inProgress⟩,
        ⟨0, "whk_1", .delivery (longId 'b'), "\x7b\x7d", 60000, .new⟩], 1) := by
    decide +kernel
  obtain ⟨g, hg, hseen⟩ := Option.map_eq_some_iff.mp hrun
  obtain ⟨hattempts, hruns⟩ := Prod.mk.inj hseen
  refine ⟨g, reaches_of_exec hg, hruns, fun h => ?_⟩
  have hnew := h.new [] _ _ hattempts fun a ha _ hid => ?_
  · exact absurd hnew (by simp)
  · rw [List.mem_singleton.mp ha] at hid
    have hlast : (['b'] : Text) = ['c'] := List.append_cancel_left (DeliveryId.delivery.inj hid)
    exact absurd hlast (by decide)

end KodyCelld.Webhooks
