import KodyCelld.Webhooks.RateLimit

namespace KodyCelld.Webhooks

open KodyCelld.Lib KodyCelld.Packages

/-!
# Rotations and their grace

Deliveries, rotations, switches and reveals of a handle in any interleaving, with a history of what
was rotated and what was admitted.

* `rotations` — the cooperative system: `webhooks` with `webhookReveal`, the history, and the
  decisions of `webhookAdmit` with what had happened before them;
* `GraceKept` — a decision honours the secret that the latest rotation retired, and admits no older;
* `Timely` — no rotation overlaps the delivery, or it takes nothing from the rotation;
* `rotations_graceful` — in every run of timely steps every decision keeps the grace;
* `staleClears` — a delivery that read its row before a rotation ends the grace.
-/

/-! ### The history -/

/-- A rotation that was written; secrets by their digests. -/
structure Rotation where
  handle : Text
  retired : Text
  issued : Text
  now : ℕ
  deriving DecidableEq

/-- What happened at the gate. -/
inductive Mark where
  | rotated (r : Rotation)
  | admitted (handle digest : Text)
  deriving DecidableEq

/-- A decision of `webhookAdmit`, with the history at its start and the history it was made on. -/
structure Decision where
  delivery : Delivery
  now : ℕ
  started : List Mark
  decided : List Mark
  outcome : Except (ℕ × Text) Admission

/-- The tables, and what happened so far, latest first. -/
structure RotationState where
  gate : WebhookState
  history : List Mark
  decisions : List Decision

/-! ### The system -/

inductive RotationCall where
  | webhook (call : Call)
  | webhookReveal (handle : Text)

/-- A frame of a webhook call remembers the history at the end of its last piece. -/
inductive RotationFrame where
  | webhook (f : Frame) (seen : List Mark)
  | revealing (handle : Text)
  | decrypting (row : WebhookRow)

structure Revealed where
  handle : Text
  secret : Text
  previousExpiresAt : Option ℕ
  deriving DecidableEq

inductive RotationRet where
  | webhook (r : Ret)
  | revealed (r : Except Thrown Revealed)

/-- `webhookReveal` behind the decryption of the secret. -/
def reveal (row : WebhookRow) (now : ℕ) : Revealed :=
  let previousLive := row.previousSecretHash.isSome &&
    row.previousExpiresAt.any fun expiresAt => decide (now < expiresAt)
  ⟨row.handle, row.secret, if previousLive then row.previousExpiresAt else none⟩

/-- What a piece adds to the history. -/
def marksOf (p : Platform) (s : WebhookState) (f : Frame) (i : Input) : List Mark :=
  match f with
  | .hashing d now row =>
    match (webhookAdmit p s d now row).1 with
    | .ok _ => [.admitted d.handle (p.sha256Hex d.secret)]
    | .error _ => []
  | .rotating handle =>
    match s.webhooks.find? handle with
    | some row => [.rotated ⟨handle, row.secretHash, p.sha256Hex i.secret, i.now⟩]
    | none => []
  | _ => []

/-- What a piece decides on a delivery that saw this history at its start. -/
def decisionsOf (p : Platform) (s : WebhookState) (history : List Mark) (f : Frame)
    (seen : List Mark) : List Decision :=
  match f with
  | .admitting d now =>
    match s.webhooks.find? d.handle with
    | none => [⟨d, now, history, history, .error (404, "unknown_handle")⟩]
    | some _ => []
  | .hashing d now row => [⟨d, now, seen, history, (webhookAdmit p s d now row).1⟩]
  | _ => []

def rotationPiece (p : Platform) (s : RotationState) (f : RotationFrame) (i : Input) :
    Option (RotationState × (RotationFrame ⊕ RotationRet)) :=
  match f with
  | .webhook f seen =>
    (piece p s.gate f i).map fun (gate, out) =>
      let history := marksOf p s.gate f i ++ s.history
      (⟨gate, history, decisionsOf p s.gate s.history f seen ++ s.decisions⟩,
        match out with
        | .inl f' => .inl (.webhook f' history)
        | .inr r => .inr (.webhook r))
  | .revealing handle =>
    match s.gate.webhooks.find? handle with
    | none => some (s, .inr (.revealed (.error (webhookNotFound handle))))
    | some row => some (s, .inl (.decrypting row))
  | .decrypting row => some (s, .inr (.revealed (.ok (reveal row i.now))))

/-- **The webhook calls with `webhookReveal`**, and the history of the gate. -/
def rotations (p : Platform) : Coop where
  Shared := RotationState
  Call := RotationCall
  Frame := RotationFrame
  Input := Input
  Ret := RotationRet
  start
    | .webhook call => .webhook (.start call) []
    | .webhookReveal handle => .revealing handle
  resume := rotationPiece p

/-- Nothing has happened yet. -/
def unrotated (gate : WebhookState) : RotationState := ⟨gate, [], []⟩

/-! ### What a decision is asked to keep -/

def Mark.rotates (handle : Text) : Mark → Bool
  | .rotated r => decide (r.handle = handle)
  | .admitted _ _ => false

/-- The rotation is the latest of its handle, and no delivery with the secret it issued was admitted
    since. -/
def Standing (r : Rotation) (since : List Mark) : Prop :=
  ∀ mark ∈ since, mark.rotates r.handle = false ∧ mark ≠ .admitted r.handle r.issued

/-- The digest is of the secret that the rotation retired, or of one that it or a later rotation of
    the handle issued. -/
def NoOlder (r : Rotation) (since : List Mark) (digest : Text) : Prop :=
  digest = r.retired ∨ digest = r.issued ∨
    ∃ later, .rotated later ∈ since ∧ later.handle = r.handle ∧ digest = later.issued

structure GraceKept (p : Platform) (x : Decision) : Prop where
  /-- A delivery with the retired secret that starts within the grace is admitted, unless the
      webhook is disabled, not declared, or beyond its rate. -/
  honoured : ∀ since r earlier, x.started = since ++ .rotated r :: earlier →
    r.handle = x.delivery.handle → Standing r since →
    p.sha256Hex x.delivery.secret = r.retired → x.now < r.now + webhookPreviousSecretGraceMs →
    (∃ adm, x.outcome = .ok adm) ∨ x.outcome = .error (404, "disabled") ∨
      x.outcome = .error (404, "not_declared") ∨ x.outcome = .error (429, "rate_limited")
  /-- From a rotation on, no secret older than the one it retired is admitted. -/
  noOlder : ∀ since r earlier adm, x.decided = since ++ .rotated r :: earlier →
    r.handle = x.delivery.handle → x.outcome = .ok adm →
    NoOlder r since (p.sha256Hex x.delivery.secret)

/-! ### The condition -/

/-- The latest rotation of the handle. -/
def lastRotation (handle : Text) : List Mark → Option Rotation
  | [] => none
  | .rotated r :: earlier => if r.handle = handle then some r else lastRotation handle earlier
  | .admitted _ _ :: earlier => lastRotation handle earlier

/-- The delivery is about to be admitted. -/
def Admits (p : Platform) (s : WebhookState) (d : Delivery) (now : ℕ) (row : WebhookRow) : Prop :=
  Arrives p s d now row ∧ ∀ manifest definition,
    s.webhookDefinition row.packageName row.webhookName = some (manifest, definition) →
    rateCount s.rates d.handle (now / 60000) < definition.rateLimitPerMinute

/-- The delivery takes nothing from a rotation that was written since its row was read: it carries
    the secret that the latest rotation retired, and it does not clear a secret that is still
    there. -/
structure Harmless (p : Platform) (s : WebhookState) (history : List Mark) (d : Delivery)
    (row : WebhookRow) : Prop where
  retired : (lastRotation d.handle history).map Rotation.retired = some (p.sha256Hex d.secret)
  clears : matchesCurrent p d row = true → row.previousSecretHash.isSome = true →
    ∀ r, s.webhooks.find? d.handle = some r → r.previousSecretHash = none

/-- A delivery that is about to be admitted saw every rotation of its handle, or is harmless. -/
def FrameTimely (p : Platform) (s : WebhookState) (history : List Mark) : RotationFrame → Prop
  | .webhook (.hashing d now row) seen => Admits p s d now row →
    history.countP (Mark.rotates d.handle) = seen.countP (Mark.rotates d.handle) ∨
      Harmless p s history d row
  | _ => True

def Timely (p : Platform) (g : Coop.Config (rotations p)) (e : Coop.Event (rotations p)) : Prop :=
  ∀ t i c f, e = .resume t i → g.pool t = some (c, f) →
    FrameTimely p g.shared.gate g.shared.history f

/-! ### Reading the history -/

section
variable {handle : Text} {r r₁ r₂ : Rotation} {since seen earlier history : List Mark} {mark : Mark}

theorem lastRotation_handle (h : lastRotation handle history = some r) : r.handle = handle := by
  induction history with
  | nil => exact absurd h (by simp [lastRotation])
  | cons mark earlier ih =>
    cases mark with
    | rotated r₁ =>
      rw [lastRotation] at h
      split at h
      · rename_i hhandle
        rw [← Option.some.inj h]
        exact hhandle
      · exact ih h
    | admitted other digest => exact ih h

theorem lastRotation_cons_other (h : mark.rotates handle = false) :
    lastRotation handle (mark :: history) = lastRotation handle history := by
  cases mark with
  | rotated r => rw [lastRotation, if_neg (of_decide_eq_false h)]
  | admitted other digest => rfl

theorem lastRotation_cons_self (h : r.handle = handle) :
    lastRotation handle (.rotated r :: history) = some r := by
  rw [lastRotation, if_pos h]

/-- Where nothing rotated the handle, its latest rotation is the earlier one. -/
theorem lastRotation_append (h : ∀ mark ∈ since, mark.rotates handle = false) :
    lastRotation handle (since ++ history) = lastRotation handle history := by
  induction since with
  | nil => rfl
  | cons mark since ih =>
    rw [List.cons_append, lastRotation_cons_other (h mark List.mem_cons_self)]
    exact ih fun other hother => h other (List.mem_cons_of_mem _ hother)

theorem lastRotation_standing (hhandle : r.handle = handle) (h : Standing r since) :
    lastRotation handle (since ++ .rotated r :: earlier) = some r := by
  rw [lastRotation_append fun mark hmark => hhandle ▸ (h mark hmark).1]
  exact lastRotation_cons_self hhandle

/-- The latest rotation is a given one, or is later. -/
theorem lastRotation_since (hhandle : r.handle = handle)
    (h : lastRotation handle (since ++ .rotated r :: earlier) = some r₁) :
    r₁ = r ∨ .rotated r₁ ∈ since := by
  induction since with
  | nil =>
    rw [List.nil_append, lastRotation_cons_self hhandle] at h
    exact .inl (Option.some.inj h).symm
  | cons mark since ih =>
    by_cases hmark : mark.rotates handle = true
    · cases mark with
      | rotated r₂ =>
        rw [List.cons_append, lastRotation_cons_self (of_decide_eq_true hmark)] at h
        exact .inr (Option.some.inj h ▸ List.mem_cons_self)
      | admitted other digest => exact absurd hmark (by simp [Mark.rotates])
    · rw [List.cons_append, lastRotation_cons_other (Bool.not_eq_true _ ▸ hmark)] at h
      exact (ih h).imp_right (List.mem_cons_of_mem _)

theorem lastRotation_issued (hhandle : r.handle = handle)
    (h : lastRotation handle (since ++ .rotated r :: earlier) = some r₁) :
    NoOlder r since r₁.issued := by
  rcases lastRotation_since hhandle h with rfl | hsince
  · exact .inr (.inl rfl)
  · exact .inr (.inr ⟨r₁, hsince, (lastRotation_handle h).trans hhandle.symm, rfl⟩)

/-- There is a latest rotation where there is one. -/
theorem lastRotation_some (hhandle : r.handle = handle) :
    ∃ r₁, lastRotation handle (since ++ .rotated r :: earlier) = some r₁ := by
  induction since with
  | nil => exact ⟨r, lastRotation_cons_self hhandle⟩
  | cons mark since ih =>
    obtain ⟨r₁, hlast⟩ := ih
    by_cases hmark : mark.rotates handle = true
    · cases mark with
      | rotated r₂ => exact ⟨r₂, lastRotation_cons_self (of_decide_eq_true hmark)⟩
      | admitted other digest => exact absurd hmark (by simp [Mark.rotates])
    · rw [List.cons_append, lastRotation_cons_other (Bool.not_eq_true _ ▸ hmark)]
      exact ⟨r₁, hlast⟩

/-- Every rotation retired what the one before it had issued. -/
def Chained : List Mark → Prop
  | [] => True
  | .rotated r :: earlier =>
    (∀ before, lastRotation r.handle earlier = some before → r.retired = before.issued) ∧
      Chained earlier
  | .admitted _ _ :: earlier => Chained earlier

/-- What the latest rotation retired is no older than what a given one retired. -/
theorem Chained.retired (hchained : Chained (since ++ .rotated r :: earlier))
    (hhandle : r.handle = handle)
    (h : lastRotation handle (since ++ .rotated r :: earlier) = some r₁) :
    NoOlder r since r₁.retired := by
  induction since with
  | nil =>
    rw [List.nil_append, lastRotation_cons_self hhandle] at h
    rw [← Option.some.inj h]
    exact .inl rfl
  | cons mark since ih =>
    have hmono : ∀ digest, NoOlder r since digest → NoOlder r (mark :: since) digest := by
      rintro digest (hold | hold | ⟨later, hlater, hsame, hdigest⟩)
      · exact .inl hold
      · exact .inr (.inl hold)
      · exact .inr (.inr ⟨later, List.mem_cons_of_mem _ hlater, hsame, hdigest⟩)
    cases mark with
    | rotated r₂ =>
      obtain ⟨hbefore, hrest⟩ := hchained
      by_cases hmark : r₂.handle = handle
      · -- the latest rotation: it retired what the one before it issued
        rw [List.cons_append, lastRotation_cons_self hmark] at h
        obtain ⟨before, hlast⟩ := @lastRotation_some handle r since earlier hhandle
        rw [← Option.some.inj h, hbefore before (hmark ▸ hlast)]
        exact hmono _ (lastRotation_issued hhandle hlast)
      · have hother : Mark.rotates handle (.rotated r₂) = false := decide_eq_false hmark
        rw [List.cons_append, lastRotation_cons_other hother] at h
        exact hmono _ (ih hrest h)
    | admitted other digest => exact hmono _ (ih hchained h)

/-! ### The row and the history -/

/-- No delivery with the secret that the rotation issued was admitted since it. -/
def Live (r : Rotation) : List Mark → Prop
  | [] => True
  | .rotated r₁ :: earlier => r₁.handle = r.handle ∨ Live r earlier
  | .admitted handle digest :: earlier => ¬ (handle = r.handle ∧ digest = r.issued) ∧ Live r earlier

theorem live_standing (h : Standing r since) : Live r (since ++ .rotated r :: earlier) := by
  induction since with
  | nil => exact .inl rfl
  | cons mark since ih =>
    have hrest : Live r (since ++ .rotated r :: earlier) :=
      ih fun other hother => h other (List.mem_cons_of_mem _ hother)
    cases mark with
    | rotated r₁ => exact .inr hrest
    | admitted handle digest =>
      refine ⟨fun hmark => ?_, hrest⟩
      obtain ⟨rfl, rfl⟩ := hmark
      exact (h _ List.mem_cons_self).2 rfl

/-- The slots of the row are as the history of its handle says. -/
structure Fit (history : List Mark) (row : WebhookRow) : Prop where
  current : ∀ r, lastRotation row.handle history = some r → row.secretHash = r.issued
  previous : ∀ r, lastRotation row.handle history = some r →
    row.previousSecretHash = none ∨ row.previousSecretHash = some r.retired
  live : ∀ r, lastRotation row.handle history = some r → Live r history →
    row.previousSecretHash = some r.retired ∧
      row.previousExpiresAt = some (r.now + webhookPreviousSecretGraceMs)

/-- The columns beside the slots do not matter. -/
theorem Fit.congr {row row' : WebhookRow} (h : Fit history row) (hhandle : row'.handle = row.handle)
    (hcurrent : row'.secretHash = row.secretHash)
    (hprevious : row'.previousSecretHash = row.previousSecretHash)
    (hexpires : row'.previousExpiresAt = row.previousExpiresAt) : Fit history row' := by
  refine ⟨fun r hr => ?_, fun r hr => ?_, fun r hr hlive => ?_⟩
  · rw [hcurrent]
    exact h.current r (hhandle ▸ hr)
  · rw [hprevious]
    exact h.previous r (hhandle ▸ hr)
  · rw [hprevious, hexpires]
    exact h.live r (hhandle ▸ hr) hlive

/-- An admission that leaves the row alone does not matter. -/
theorem Fit.admitted {row : WebhookRow} {digest : Text} (h : Fit history row) :
    Fit (.admitted handle digest :: history) row :=
  ⟨h.current, h.previous, fun r hr hlive => h.live r hr hlive.2⟩

/-- An admission may clear the previous secret under the secret issued last, or where it is cleared
    already. -/
theorem Fit.cleared {row row' : WebhookRow} {digest : Text} (h : Fit history row)
    (hhandle : row'.handle = row.handle) (hcurrent : row'.secretHash = row.secretHash)
    (hnone : row'.previousSecretHash = none)
    (hclears : (∀ r, lastRotation row.handle history = some r → digest = r.issued) ∨
      row.previousSecretHash = none) : Fit (.admitted row.handle digest :: history) row' := by
  refine ⟨fun r hr => ?_, fun r hr => .inl hnone, fun r hr hlive => ?_⟩
  · rw [hcurrent]
    exact h.current r (hhandle ▸ hr)
  · rw [hhandle] at hr
    have hr : lastRotation row.handle history = some r := hr
    rcases hclears with hissued | hempty
    · exact absurd ⟨(lastRotation_handle hr).symm, hissued r hr⟩ hlive.1
    · -- the grace was over already
      exact absurd ((h.live r hr hlive.2).1.symm.trans hempty) (by simp)

/-- A rotation of another handle does not matter. -/
theorem Fit.rotated_other {row : WebhookRow} (h : Fit history row) (hne : r.handle ≠ row.handle) :
    Fit (.rotated r :: history) row := by
  have hlast : lastRotation row.handle (.rotated r :: history) = lastRotation row.handle history :=
    lastRotation_cons_other (decide_eq_false hne)
  refine ⟨fun r₁ hr => h.current r₁ (hlast ▸ hr), fun r₁ hr => h.previous r₁ (hlast ▸ hr),
    fun r₁ hr hlive => ?_⟩
  rw [hlast] at hr
  rcases hlive with hsame | hlive
  · exact absurd (hsame.trans (lastRotation_handle hr)) hne
  · exact h.live r₁ hr hlive

end

/-! ### Tables -/

section
variable {p : Platform} {s s' : WebhookState} {d : Delivery} {now : ℕ} {row r₀ : WebhookRow}
  {history : List Mark} {handle : Text}

/-- The row of a handle after the writes of an admission. -/
theorem mem_admitWebhook {r : WebhookRow} (h : r ∈ (admitWebhook p s.webhooks d now row).rows) :
    ∃ old ∈ s.webhooks.rows, r.handle = old.handle ∧ r.secretHash = old.secretHash ∧
      ((r.previousSecretHash = old.previousSecretHash ∧
          r.previousExpiresAt = old.previousExpiresAt) ∨
        old.handle = d.handle ∧ r.previousSecretHash = none ∧ matchesCurrent p d row = true ∧
          row.previousSecretHash.isSome = true) := by
  unfold admitWebhook updateWebhook at h
  obtain ⟨mid, hmid, rfl⟩ := Rows.mem_map.mp h
  have hmiddle : ∃ old ∈ s.webhooks.rows, mid.handle = old.handle ∧
      mid.secretHash = old.secretHash ∧
      ((mid.previousSecretHash = old.previousSecretHash ∧
          mid.previousExpiresAt = old.previousExpiresAt) ∨
        old.handle = d.handle ∧ mid.previousSecretHash = none ∧ matchesCurrent p d row = true ∧
          row.previousSecretHash.isSome = true) := by
    split at hmid
    · rename_i hclears
      rw [Bool.and_eq_true] at hclears
      obtain ⟨old, hold, rfl⟩ := Rows.mem_map.mp hmid
      refine ⟨old, hold, ?_⟩
      split
      · rename_i hhandle
        exact ⟨rfl, rfl, .inr ⟨hhandle, rfl, hclears.1, hclears.2⟩⟩
      · exact ⟨rfl, rfl, .inl ⟨rfl, rfl⟩⟩
    · exact ⟨mid, hmid, rfl, rfl, .inl ⟨rfl, rfl⟩⟩
  obtain ⟨old, hold, hmiddle⟩ := hmiddle
  refine ⟨old, hold, ?_⟩
  split
  · exact hmiddle
  · exact hmiddle

/-- **An admission keeps the rows fit**, where it clears a secret only as it may. -/
theorem fit_admission (h : ∀ r ∈ s.webhooks.rows, Fit history r)
    (hclears : matchesCurrent p d row = true → row.previousSecretHash.isSome = true →
      (∀ r, lastRotation d.handle history = some r → p.sha256Hex d.secret = r.issued) ∨
        ∀ r, s.webhooks.find? d.handle = some r → r.previousSecretHash = none) :
    ∀ r ∈ (admitWebhook p s.webhooks d now row).rows,
      Fit (.admitted d.handle (p.sha256Hex d.secret) :: history) r := by
  intro r hr
  obtain ⟨old, hold, hhandle, hcurrent, hprevious⟩ := mem_admitWebhook hr
  rcases hprevious with ⟨hsame, hexpires⟩ | ⟨hown, hnone, hmatches, hsome⟩
  · exact (h old hold).admitted.congr hhandle hcurrent hsame hexpires
  · rw [← hown]
    refine (h old hold).cleared hhandle hcurrent hnone ?_
    rcases hclears hmatches hsome with hissued | hempty
    · exact .inl fun r₁ hr₁ => hissued r₁ (hown ▸ hr₁)
    · exact .inr (hempty old (Rows.find?_eq_some.mpr ⟨hold, hown⟩))

/-- **A rotation keeps the rows fit.** -/
theorem fit_rotate {i : Input} (h : ∀ r ∈ s.webhooks.rows, Fit history r)
    (hrow : s.webhooks.find? handle = some r₀) : ∀ r ∈ (rotate p s handle i).webhooks.rows,
      Fit (.rotated ⟨handle, r₀.secretHash, p.sha256Hex i.secret, i.now⟩ :: history) r := by
  intro r hr
  obtain ⟨old, hold, rfl⟩ := List.mem_map.mp hr
  split
  · rename_i hown
    -- the table has one row of the handle
    have hsame : old = r₀ :=
      Option.some.inj ((Rows.find?_eq_some.mpr ⟨hold, hown⟩).symm.trans hrow)
    subst hsame
    have hlast : ∀ r₁, lastRotation old.handle (.rotated ⟨handle, old.secretHash,
        p.sha256Hex i.secret, i.now⟩ :: history) = some r₁ →
        r₁ = ⟨handle, old.secretHash, p.sha256Hex i.secret, i.now⟩ := by
      intro r₁ hr₁
      rw [lastRotation_cons_self hown.symm] at hr₁
      exact (Option.some.inj hr₁).symm
    refine ⟨fun r₁ hr₁ => ?_, fun r₁ hr₁ => ?_, fun r₁ hr₁ _ => ?_⟩
    · rw [hlast r₁ hr₁]
    · rw [hlast r₁ hr₁]
      exact .inr rfl
    · rw [hlast r₁ hr₁]
      exact ⟨rfl, rfl⟩
  · rename_i hother
    exact (h old hold).rotated_other (Ne.symm hother)

/-! ### Decisions -/

/-- A delivery whose secret matches is refused for other reasons only. -/
theorem outcome_of_matches
    (h : (matchesCurrent p d row || matchesPrevious p d now row) = true) :
    (∃ adm, (webhookAdmit p s d now row).1 = .ok adm) ∨
      (webhookAdmit p s d now row).1 = .error (404, "disabled") ∨
      (webhookAdmit p s d now row).1 = .error (404, "not_declared") ∨
      (webhookAdmit p s d now row).1 = .error (429, "rate_limited") := by
  unfold webhookAdmit
  rw [if_neg (by rw [← Bool.not_or, h]; simp)]
  split
  · exact .inr (.inl rfl)
  · split
    · exact .inr (.inr (.inl rfl))
    · dsimp only
      split
      · exact .inr (.inr (.inr rfl))
      · exact .inl ⟨_, rfl⟩

/-- A live previous secret matches. -/
theorem matchesPrevious_of {digest : Text} {expiresAt : ℕ}
    (hprevious : row.previousSecretHash = some digest)
    (hexpires : row.previousExpiresAt = some expiresAt) (hnow : now < expiresAt)
    (hsecret : p.sha256Hex d.secret = digest) : matchesPrevious p d now row = true := by
  unfold matchesPrevious
  rw [hprevious, hexpires, Option.isSome_some, Option.any_some, decide_eq_true hnow]
  exact decide_eq_true hsecret

theorem admits_of_ok {adm : Admission} (h : (webhookAdmit p s d now row).1 = .ok adm) :
    Admits p s d now row := by
  cases hdecision : webhookAdmit p s d now row with
  | mk r s' =>
    rw [hdecision] at h
    have h : r = .ok adm := h
    subst h
    rcases webhookAdmit_cases hdecision with ⟨-, ⟨refusal, hr⟩, -⟩ | ⟨-, -, -, -, -, hr, -⟩ |
      ⟨manifest, definition, harrives, hdefinition, hcount, -, -⟩
    · exact absurd hr (by simp)
    · exact absurd hr (by simp)
    · refine ⟨harrives, fun manifest' definition' hfound => ?_⟩
      obtain ⟨rfl, rfl⟩ := Prod.mk.inj (Option.some.inj (hdefinition.symm.trans hfound))
      rwa [rateCount_drop] at hcount

/-- What is known of the row that a delivery read. -/
structure Read (d : Delivery) (row : WebhookRow) (seen : List Mark) : Prop where
  handle : row.handle = d.handle
  fit : Fit seen row

/-- Where the delivery saw every rotation, its row has the secrets of the latest one. -/
theorem Read.unrotated {seen : List Mark} (hread : Read d row seen) (hseen : seen <:+ history)
    (hcount : history.countP (Mark.rotates d.handle) = seen.countP (Mark.rotates d.handle)) :
    lastRotation row.handle seen = lastRotation d.handle history := by
  obtain ⟨since, rfl⟩ := hseen
  rw [List.countP_append] at hcount
  have hzero : since.countP (Mark.rotates d.handle) = 0 := by omega
  rw [hread.handle, lastRotation_append fun mark hmark => ?_]
  exact Bool.not_eq_true _ ▸ List.countP_eq_zero.mp hzero mark hmark

/-- **A decision keeps the grace**, where no rotation overlaps the delivery or it is harmless. -/
theorem decision_kept {seen : List Mark} (hchained : Chained history) (hread : Read d row seen)
    (hseen : seen <:+ history) (htimely : FrameTimely p s history (.webhook (.hashing d now row) seen)) :
    GraceKept p ⟨d, now, seen, history, (webhookAdmit p s d now row).1⟩ := by
  constructor
  · rintro since r earlier rfl hhandle hstanding hsecret hnow
    refine outcome_of_matches ?_
    have hlast : lastRotation row.handle (since ++ .rotated r :: earlier) = some r :=
      lastRotation_standing (hhandle.trans hread.handle.symm) hstanding
    obtain ⟨hprevious, hexpires⟩ := hread.fit.live r hlast (live_standing hstanding)
    have hmatches : matchesPrevious p d now row = true :=
      matchesPrevious_of hprevious hexpires hnow hsecret
    rw [hmatches, Bool.or_true]
  · rintro since r earlier adm rfl hhandle hok
    have hadmits : Admits p s d now row := admits_of_ok hok
    obtain ⟨r₁, hlast⟩ := @lastRotation_some d.handle r since earlier hhandle
    have hissued : NoOlder r since r₁.issued := lastRotation_issued hhandle hlast
    have hretired : NoOlder r since r₁.retired := hchained.retired hhandle hlast
    rcases htimely hadmits with hcount | hharmless
    · have hsame := (hread.unrotated hseen hcount).trans hlast
      have hmatches := hadmits.1.1
      rw [Bool.or_eq_true] at hmatches
      rcases hmatches with hcurrent | hprevious
      · -- the secret that the latest rotation issued
        have hdigest : p.sha256Hex d.secret = row.secretHash := of_decide_eq_true hcurrent
        show NoOlder r since (p.sha256Hex d.secret)
        rw [hdigest, hread.fit.current r₁ hsame]
        exact hissued
      · -- the one that it retired
        simp only [matchesPrevious, Bool.and_eq_true, decide_eq_true_eq] at hprevious
        obtain ⟨⟨hsome, -⟩, hdigest⟩ := hprevious
        rcases hread.fit.previous r₁ hsame with hnone | hretiredHash
        · rw [hnone] at hsome
          exact absurd hsome (by simp)
        · show NoOlder r since (p.sha256Hex d.secret)
          rw [hdigest, hretiredHash]
          exact hretired
    · have hdigest := hharmless.retired
      rw [hlast] at hdigest
      show NoOlder r since (p.sha256Hex d.secret)
      rw [← Option.some.inj hdigest]
      exact hretired

/-- Where a timely delivery clears a secret, it carries the one issued last, or none is there. -/
theorem clears_of_timely {seen : List Mark} (hread : Read d row seen) (hseen : seen <:+ history)
    (htimely : FrameTimely p s history (.webhook (.hashing d now row) seen))
    (hadmits : Admits p s d now row) (hmatches : matchesCurrent p d row = true)
    (hsome : row.previousSecretHash.isSome = true) :
    (∀ r, lastRotation d.handle history = some r → p.sha256Hex d.secret = r.issued) ∨
      ∀ r, s.webhooks.find? d.handle = some r → r.previousSecretHash = none := by
  rcases htimely hadmits with hcount | hharmless
  · left
    intro r hr
    have hdigest : p.sha256Hex d.secret = row.secretHash := of_decide_eq_true hmatches
    rw [hdigest]
    exact hread.fit.current r ((hread.unrotated hseen hcount).trans hr)
  · exact .inr (hharmless.clears hmatches hsome)

/-! ### What a piece keeps -/

/-- What holds of the tables and the history. -/
structure GateInv (history : List Mark) (s : WebhookState) : Prop where
  rows : ∀ r ∈ s.webhooks.rows, Fit history r
  chained : Chained history
  kept : ∀ r, .rotated r ∈ history → (s.webhooks.find? r.handle).isSome

theorem isSome_updateWebhook {change : WebhookRow → WebhookRow}
    (hkey : ∀ row, (change row).handle = row.handle) {k : Text} :
    ((updateWebhook s.webhooks handle change hkey).find? k).isSome =
      (s.webhooks.find? k).isSome := by
  unfold updateWebhook
  rw [Rows.find?_map, Option.isSome_map]

theorem isSome_rotate {i : Input} {k : Text} :
    ((rotate p s handle i).webhooks.find? k).isSome = (s.webhooks.find? k).isSome := by
  refine isSome_updateWebhook ?_
  exact fun _ => rfl

theorem isSome_admitWebhook {k : Text} :
    ((admitWebhook p s.webhooks d now row).find? k).isSome = (s.webhooks.find? k).isSome := by
  unfold admitWebhook updateWebhook
  rw [Rows.find?_map, Option.isSome_map]
  split
  · rw [Rows.find?_map, Option.isSome_map]
  · rfl

/-- The other tables do not matter. -/
theorem GateInv.congr (h : GateInv history s) (hwebhooks : s'.webhooks = s.webhooks) :
    GateInv history s' :=
  ⟨hwebhooks ▸ h.rows, h.chained, hwebhooks ▸ h.kept⟩

theorem GateInv.rotate {i : Input} (h : GateInv history s) (hrow : s.webhooks.find? handle = some r₀) :
    GateInv (.rotated ⟨handle, r₀.secretHash, p.sha256Hex i.secret, i.now⟩ :: history)
      (rotate p s handle i) := by
  refine ⟨fit_rotate h.rows hrow, ⟨fun before hbefore => ?_, h.chained⟩, fun r hr => ?_⟩
  · obtain ⟨hmem, hhandle⟩ := Rows.find?_eq_some.mp hrow
    refine (h.rows r₀ hmem).current before ?_
    rwa [show r₀.handle = handle from hhandle]
  · rw [isSome_rotate]
    rcases List.mem_cons.mp hr with heq | hold
    · rw [Mark.rotated.inj heq]
      exact Option.isSome_iff_exists.mpr ⟨r₀, hrow⟩
    · exact h.kept r hold

theorem GateInv.admission {seen : List Mark} (h : GateInv history s) (hread : Read d row seen)
    (hseen : seen <:+ history) (htimely : FrameTimely p s history (.webhook (.hashing d now row) seen))
    (hadmits : Admits p s d now row) :
    GateInv (.admitted d.handle (p.sha256Hex d.secret) :: history) (admittedState p s d now row) := by
  refine ⟨fit_admission h.rows fun hmatches hsome => ?_, h.chained, fun r hr => ?_⟩
  · exact clears_of_timely hread hseen htimely hadmits hmatches hsome
  · show ((admitWebhook p s.webhooks d now row).find? r.handle).isSome
    rw [isSome_admitWebhook]
    rcases List.mem_cons.mp hr with heq | hold
    · exact absurd heq (by simp)
    · exact h.kept r hold

/-- **Step lemma, tables.** -/
theorem GateInv.piece {f : Frame} {i : Input} {out : Frame ⊕ Ret} {seen : List Mark}
    (hinv : GateInv history s)
    (hread : ∀ d now row, f = .hashing d now row → Read d row seen ∧ seen <:+ history)
    (htimely : FrameTimely p s history (.webhook f seen)) (h : piece p s f i = some (s', out)) :
    GateInv (marksOf p s f i ++ history) s' := by
  cases f with
  | hashing d now row =>
    obtain ⟨hrow, hseen⟩ := hread d now row rfl
    obtain ⟨rfl, -⟩ := Prod.mk.inj (Option.some.inj h)
    rw [admitPiece_state]
    unfold marksOf
    dsimp only
    cases hdecision : webhookAdmit p s d now row with
    | mk r s' =>
      have houtcome : (webhookAdmit p s d now row).1 = r := congrArg Prod.fst hdecision
      rcases webhookAdmit_cases hdecision with ⟨-, ⟨refusal, rfl⟩, rfl⟩ |
        ⟨-, -, -, -, -, rfl, rfl⟩ | ⟨manifest, definition, -, -, -, rfl, rfl⟩
      · exact hinv
      · exact hinv.congr rfl
      · exact hinv.admission hrow hseen htimely (admits_of_ok houtcome)
  | rotating handle =>
    obtain ⟨rfl, -⟩ := Prod.mk.inj (Option.some.inj h)
    unfold marksOf
    dsimp only
    cases hrow : s.webhooks.find? handle with
    | none =>
      -- no row has the handle
      refine ⟨fun r hr => ?_, hinv.chained, fun r hr => ?_⟩
      · obtain ⟨old, hold, rfl⟩ := List.mem_map.mp hr
        have hother : old.handle ≠ handle := fun hhandle =>
          absurd ((Rows.find?_eq_some.mpr ⟨hold, hhandle⟩).symm.trans hrow) (by simp)
        rw [if_neg hother]
        exact hinv.rows old hold
      · rw [isSome_rotate]
        exact hinv.kept r hr
    | some r₀ => exact hinv.rotate hrow
  | _ =>
    rcases piece_gate h with hkept | ⟨_, _, _, hf, -⟩ | ⟨_, hf, -⟩ | ⟨other, enabled, -, rfl⟩
    · exact hinv.congr hkept.webhooks
    · exact absurd hf (by simp)
    · exact absurd hf (by simp)
    · refine ⟨fun r hr => ?_, hinv.chained, fun r hr => ?_⟩
      · obtain ⟨old, hold, rfl⟩ := List.mem_map.mp hr
        split
        · exact (hinv.rows old hold).congr rfl rfl rfl rfl
        · exact hinv.rows old hold
      · refine Eq.trans (isSome_updateWebhook ?_) (hinv.kept r hr)
        exact fun _ => rfl

/-! ### Where a delivery reads its row -/

/-- The frame is that of a delivery that has read its row. -/
def Frame.hasRow : Frame → Bool
  | .hashing _ _ _ => true
  | _ => false

theorem hasRow_afterAdmission {adm : Admission} : (afterAdmission p d adm).hasRow = false := by
  unfold afterAdmission
  dsimp only
  split
  · rfl
  · rfl

theorem hasRow_afterSignature {x : Passed} : (afterSignature x).hasRow = false := by
  unfold afterSignature
  extract_lets definition body bodyBytes params
  split
  · rfl
  · split
    · rfl
    · rfl
    · rfl

theorem hasRow_afterBody {adm : Admission} : (afterBody p d adm).hasRow = false := by
  unfold afterBody
  extract_lets definition bodyBytes
  split
  · rfl
  · split
    · rfl
    · split
      · exact hasRow_afterSignature
      · dsimp only
        split
        · rfl
        · split
          · rfl
          · rfl

theorem hasRow_afterClaim {x : Passed} {params : Option (List (Text × Json))} {a : Attempt} :
    (afterClaim x params a).hasRow = false := by
  unfold afterClaim
  extract_lets d ack replayed
  split
  · rfl
  · rfl
  · rfl
  · rfl

/-- **Inversion.** Only the first piece of `webhookAdmit` reads a row. -/
theorem piece_hasRow {f f' : Frame} {i : Input} (h : piece p s f i = some (s', .inl f'))
    (hrow : f'.hasRow = true) : ∃ d now row, f = .admitting d now ∧ f' = .hashing d now row ∧
      s.webhooks.find? d.handle = some row ∧ s' = s := by
  have hnot : ∀ g : Frame, g.hasRow = false → (.inl g : Frame ⊕ Ret) ≠ .inl f' := by
    rintro g hg heq
    rw [Sum.inl.inj heq] at hg
    exact absurd (hrow.symm.trans hg) (by simp)
  cases f with
  | start call =>
    have hstart : startPiece p s i call = (s', .inl f') := Option.some.inj h
    unfold startPiece at hstart
    cases call with
    | deliver request =>
      dsimp only at hstart
      split at hstart
      · exact absurd (Prod.mk.inj hstart).2 (by simp)
      · exact absurd (Prod.mk.inj hstart).2 (hnot _ rfl)
    | webhookRotate handle =>
      dsimp only at hstart
      split at hstart
      · exact absurd (Prod.mk.inj hstart).2 (by simp)
      · exact absurd (Prod.mk.inj hstart).2 (hnot _ rfl)
    | webhookSetEnabled handle enabled =>
      dsimp only at hstart
      split at hstart
      · exact absurd (Prod.mk.inj hstart).2 (by simp)
      · exact absurd (Prod.mk.inj hstart).2 (by simp)
    | packageWrite name manifest => exact absurd (Prod.mk.inj hstart).2 (by simp)
    | secretWrite secrets => exact absurd (Prod.mk.inj hstart).2 (by simp)
  | lookingUp d =>
    unfold piece at h
    dsimp only at h
    split at h
    · exact absurd (Prod.mk.inj (Option.some.inj h)).2 (hnot _ rfl)
    · exact absurd (Prod.mk.inj (Option.some.inj h)).2 (by simp)
  | admitting d now =>
    unfold piece at h
    dsimp only at h
    split at h
    · exact absurd (Prod.mk.inj (Option.some.inj h)).2 (by simp)
    rename_i row hfound
    obtain ⟨rfl, hf⟩ := Prod.mk.inj (Option.some.inj h)
    exact ⟨d, now, row, rfl, (Sum.inl.inj hf).symm, hfound, rfl⟩
  | hashing d now row =>
    refine absurd (Prod.mk.inj (Option.some.inj h)).2 (hnot _ ?_)
    unfold admitPiece
    split
    · rfl
    · exact hasRow_afterAdmission
  | readingBody d adm =>
    exact absurd (Prod.mk.inj (Option.some.inj h)).2 (hnot _ hasRow_afterBody)
  | checkingSignature d adm v candidates message =>
    have hpiece : signaturePiece p s d adm v candidates message = (s', .inl f') :=
      Option.some.inj h
    unfold signaturePiece at hpiece
    split at hpiece
    · exact absurd (Prod.mk.inj hpiece).2 (by simp)
    · exact absurd (Prod.mk.inj hpiece).2 (hnot _ rfl)
    · split at hpiece
      · exact absurd (Prod.mk.inj hpiece).2 (hnot _ hasRow_afterSignature)
      · exact absurd (Prod.mk.inj hpiece).2 (hnot _ rfl)
  | claiming x params id =>
    exact absurd (Prod.mk.inj (Option.some.inj h)).2 (hnot _ hasRow_afterClaim)
  | accepting x params attempt =>
    obtain ⟨⟨s₁, f₁⟩, haccept, heq⟩ := Option.map_eq_some_iff.mp h
    refine absurd (Prod.mk.inj heq).2 (hnot _ ?_)
    unfold acceptPiece at haccept
    extract_lets ack record at haccept
    obtain ⟨s₂, -, heq⟩ := Option.map_eq_some_iff.mp haccept
    rw [← (Prod.mk.inj heq).2]
    rfl
  | running x attempt deliveryId => exact absurd (Prod.mk.inj (Option.some.inj h)).2 (hnot _ rfl)
  | finishing x attempt deliveryId outcome =>
    have hfinish : finishPiece s x attempt deliveryId outcome i.now = (s', .inl f') :=
      Option.some.inj h
    unfold finishPiece at hfinish
    extract_lets s₁ at hfinish
    split at hfinish
    · exact absurd (Prod.mk.inj hfinish).2 (by simp)
    · exact absurd (Prod.mk.inj hfinish).2 (hnot _ rfl)
  | finishingClaim x attempt deliveryId outcome =>
    exact absurd (Prod.mk.inj (Option.some.inj h)).2 (by simp)
  | recording d record attempt response =>
    obtain ⟨s₁, -, heq⟩ := Option.map_eq_some_iff.mp h
    exact absurd (Prod.mk.inj heq).2 (by simp)
  | rotating handle => exact absurd (Prod.mk.inj (Option.some.inj h)).2 (by simp)

/-- A handle that was rotated is known. -/
theorem unknown_kept (hinv : GateInv history s) (hnone : s.webhooks.find? d.handle = none) :
    GraceKept p ⟨d, now, history, history, .error (404, "unknown_handle")⟩ := by
  constructor
  · rintro since r earlier hhistory hhandle - - -
    have hmem : .rotated r ∈ history := by
      rw [show history = since ++ .rotated r :: earlier from hhistory]
      exact List.mem_append_right _ List.mem_cons_self
    have hsome := hinv.kept r hmem
    rw [show r.handle = d.handle from hhandle, hnone] at hsome
    exact absurd hsome (by simp)
  · rintro since r earlier adm - - hok
    exact absurd hok (by simp)

/-! ### Runs -/

/-- What holds in every state that timely steps reach. -/
structure RotationInv (p : Platform) (g : Coop.Config (rotations p)) : Prop where
  gate : GateInv g.shared.history g.shared.gate
  frames : ∀ t c d now row seen, g.pool t = some (c, .webhook (.hashing d now row) seen) →
    Read d row seen ∧ seen <:+ g.shared.history
  decisions : ∀ x ∈ g.shared.decisions, GraceKept p x

theorem decisionsOf_kept {f : Frame} {seen : List Mark} (hinv : GateInv history s)
    (hread : ∀ d now row, f = .hashing d now row → Read d row seen ∧ seen <:+ history)
    (htimely : FrameTimely p s history (.webhook f seen)) :
    ∀ x ∈ decisionsOf p s history f seen, GraceKept p x := by
  intro x hx
  cases f with
  | admitting d now =>
    unfold decisionsOf at hx
    dsimp only at hx
    split at hx
    · rename_i hnone
      rw [List.mem_singleton.mp hx]
      exact unknown_kept hinv hnone
    · exact absurd hx List.not_mem_nil
  | hashing d now row =>
    obtain ⟨hrow, hseen⟩ := hread d now row rfl
    rw [List.mem_singleton.mp hx]
    exact decision_kept hinv.chained hrow hseen htimely
  | _ => exact absurd hx List.not_mem_nil

/-- **Step lemma.** A timely piece keeps the tables and the history, reads a row that fits the
    history, and makes decisions that keep the grace. -/
theorem rotationPiece_kept {S S' : RotationState} {f : RotationFrame} {i : Input}
    {out : RotationFrame ⊕ RotationRet} (hinv : GateInv S.history S.gate)
    (hread : ∀ d now row seen, f = .webhook (.hashing d now row) seen →
      Read d row seen ∧ seen <:+ S.history)
    (htimely : FrameTimely p S.gate S.history f) (h : rotationPiece p S f i = some (S', out)) :
    GateInv S'.history S'.gate ∧ S.history <:+ S'.history ∧
      (∀ d now row seen, out = .inl (.webhook (.hashing d now row) seen) →
        Read d row seen ∧ seen <:+ S'.history) ∧
      ∀ x ∈ S'.decisions, x ∈ S.decisions ∨ GraceKept p x := by
  cases f with
  | webhook f seen =>
    have hread : ∀ d now row, f = .hashing d now row → Read d row seen ∧ seen <:+ S.history := by
      rintro d now row rfl
      exact hread d now row seen rfl
    obtain ⟨⟨gate, out₁⟩, hpiece, heq⟩ := Option.map_eq_some_iff.mp h
    obtain ⟨rfl, hout⟩ := Prod.mk.inj heq
    have hgate := hinv.piece hread htimely hpiece
    refine ⟨hgate, List.suffix_append _ _, fun d now row seen' hnew => ?_, fun x hx => ?_⟩
    · cases out₁ with
      | inl f' =>
        obtain ⟨rfl, rfl⟩ := RotationFrame.webhook.inj (Sum.inl.inj (hout.trans hnew))
        -- the row was just read
        obtain ⟨d₁, now₁, row₁, rfl, hf, hfound, rfl⟩ := piece_hasRow hpiece rfl
        obtain ⟨rfl, rfl, rfl⟩ := Frame.hashing.inj hf
        obtain ⟨hmem, hhandle⟩ := Rows.find?_eq_some.mp hfound
        exact ⟨⟨hhandle, hgate.rows row hmem⟩, List.suffix_refl _⟩
      | inr r => exact absurd (hout.trans hnew) (by simp)
    · rcases List.mem_append.mp hx with hnew | hold
      · exact .inr (decisionsOf_kept hinv hread htimely x hnew)
      · exact .inl hold
  | revealing handle =>
    unfold rotationPiece at h
    dsimp only at h
    split at h
    · obtain ⟨rfl, rfl⟩ := Prod.mk.inj (Option.some.inj h)
      exact ⟨hinv, List.suffix_refl _, fun _ _ _ _ hnew => absurd hnew (by simp), fun x => .inl⟩
    · obtain ⟨rfl, rfl⟩ := Prod.mk.inj (Option.some.inj h)
      exact ⟨hinv, List.suffix_refl _, fun _ _ _ _ hnew => absurd hnew (by simp), fun x => .inl⟩
  | decrypting row =>
    obtain ⟨rfl, rfl⟩ := Prod.mk.inj (Option.some.inj h)
    exact ⟨hinv, List.suffix_refl _, fun _ _ _ _ hnew => absurd hnew (by simp), fun x => .inl⟩

theorem RotationInv.step {g g' : Coop.Config (rotations p)} {e : Coop.Event (rotations p)}
    (hinv : RotationInv p g) (htimely : Timely p g e) (h : Coop.step g e = some g') :
    RotationInv p g' := by
  rcases Coop.step_ran h with ⟨t, c, rfl, hfree, rfl⟩ | ⟨t, i, c, f, out, rfl, hran⟩
  · refine ⟨hinv.gate, fun u c' d now row seen hu => ?_, hinv.decisions⟩
    rcases Coop.pool_update_cases hu with ⟨-, heq⟩ | ⟨-, hold⟩
    · obtain ⟨rfl, hf⟩ := Prod.mk.inj (Option.some.inj heq)
      cases c with
      | webhook call => exact absurd (RotationFrame.webhook.inj hf).1 (by simp)
      | webhookReveal handle => exact RotationFrame.noConfusion hf
    · exact hinv.frames u c' d now row seen hold
  · obtain ⟨hgate, hsuffix, hout, hdecisions⟩ := rotationPiece_kept hinv.gate
      (fun d now row seen hf => hinv.frames t c d now row seen (hf ▸ hran.before))
      (htimely t i c f rfl hran.before) hran.runs
    refine ⟨hgate, fun u c' d now row seen hu => ?_, fun x hx => ?_⟩
    · rcases hran.pool u c' _ hu with ⟨-, hold⟩ | ⟨-, -, hnew⟩
      · obtain ⟨hrow, hseen⟩ := hinv.frames u c' d now row seen hold
        exact ⟨hrow, hseen.trans hsuffix⟩
      · exact hout d now row seen hnew
    · exact (hdecisions x hx).elim (hinv.decisions x) id

end

/-- **Rotation keeps its grace.**  In every run of timely steps, whatever the interleaving of
    deliveries, rotations, switches and reveals: a delivery that starts after a rotation with the
    secret it retired passes until the grace ends, the new secret is used or the handle is rotated
    again, and no older secret is admitted. -/
theorem rotations_graceful {p : Platform} {rows : Rows WebhookRow.handle}
    {manifests : Text → Option PackageManifest} {secrets : List SecretRow}
    {g : Coop.Config (rotations p)}
    (h : Reaches Coop.step (Timely p) (Coop.idle (unrotated (minted p rows manifests secrets))) g) :
    ∀ x ∈ g.shared.decisions, GraceKept p x := by
  have hinv : RotationInv p g := by
    refine h.invariant (RotationInv p) (fun s e s' hs hg hstep => hs.step hg hstep) ?_
    refine ⟨⟨fun r hr => ?_, trivial, fun r hr => absurd hr List.not_mem_nil⟩,
      fun t c d now row seen hpool => absurd hpool (by simp [Coop.idle]),
      fun x hx => absurd hx List.not_mem_nil⟩
    exact ⟨fun _ hnone => absurd hnone (by simp [Coop.idle, unrotated, lastRotation]),
      fun _ hnone => absurd hnone (by simp [Coop.idle, unrotated, lastRotation]),
      fun _ hnone => absurd hnone (by simp [Coop.idle, unrotated, lastRotation])⟩
  exact hinv.decisions

/-! ### Examples -/

/-- The digests of the secrets that the examples use. -/
def rotationPlatform : Platform :=
  { samplePlatform with
    sha256Hex := fun text =>
      if text = "url-secret" then
        "bdde0fdf9960db59eaf5a9aa1466f6a8666bf20ecd42b8a0869c23022ca61a97"
      else if text = "secret-a" then
        "8766b9cb08e6040b704f1e3ee1e186efccf2635b1d2634d6525333007e6aeae1"
      else if text = "secret-b" then
        "ff492ef788c89b555e6f738b33d2422f57dbb6656af2402155672c5f123a90af"
      else [] }

def rotationIdle : Coop.Config (rotations rotationPlatform) :=
  Coop.idle (unrotated (minted rotationPlatform sampleRows
    (fun name => if name = "mirror" then some (sampleManifest (sampleDefinition 60 none none))
      else none) []))

/-- The thread runs on, at the time and with the secret to be issued. -/
def resumes (t now pieces : ℕ) (secret : Text) : List (Coop.Event (rotations rotationPlatform)) :=
  List.replicate pieces (.resume t ⟨now, true, [], secret, .threw []⟩)

/-- A rotation from its call to its return. -/
def rotateRun (t now : ℕ) (secret : Text) : List (Coop.Event (rotations rotationPlatform)) :=
  .call t (.webhook (.webhookRotate "whk_1")) :: resumes t now 2 secret

/-- A delivery with the secret: three pieces lead to its row, four to its admission. -/
def deliverRun (t now pieces : ℕ) (secret : Text) : List (Coop.Event (rotations rotationPlatform)) :=
  .call t (.webhook (.deliver { sampleRequest [] [] with
    segments := ["webhooks", "user", "whk_1", secret] })) :: resumes t now pieces []

/-- What the examples look at: the secret, the histories, and the refusal if there is one. -/
structure DecisionView where
  secret : Text
  handle : Text
  now : ℕ
  started : List Mark
  decided : List Mark
  refusal : Option (ℕ × Text)
  deriving DecidableEq

def Decision.view (x : Decision) : DecisionView where
  secret := x.delivery.secret
  handle := x.delivery.handle
  now := x.now
  started := x.started
  decided := x.decided
  refusal := match x.outcome with
    | .ok _ => none
    | .error refusal => some refusal

theorem view_error {x : Decision} {refusal : ℕ × Text} (h : x.view.refusal = some refusal) :
    x.outcome = .error refusal := by
  cases hout : x.outcome with
  | ok adm => exact absurd h (by simp [Decision.view, hout])
  | error refusal' =>
    have heq : some refusal' = some refusal := by
      rw [← h]
      simp [Decision.view, hout]
    rw [Option.some.inj heq]

/-- `Timely` as a check: no delivery is overlapped. -/
def timelyCheck (g : Coop.Config (rotations rotationPlatform)) :
    Coop.Event (rotations rotationPlatform) → Bool
  | .call _ _ => true
  | .resume t _ =>
    match g.pool t with
    | some (_, .webhook (.hashing d _ _) seen) =>
      decide (g.shared.history.countP (Mark.rotates d.handle) = seen.countP (Mark.rotates d.handle))
    | _ => true

theorem timely_of_check {g : Coop.Config (rotations rotationPlatform)}
    {e : Coop.Event (rotations rotationPlatform)} (h : timelyCheck g e = true) :
    Timely rotationPlatform g e := by
  rintro t i c f rfl hpool
  unfold timelyCheck at h
  simp only [hpool] at h
  cases f with
  | webhook f seen =>
    cases f with
    | hashing d now row => exact fun _ => .inl (of_decide_eq_true h)
    | _ => trivial
  | revealing handle => trivial
  | decrypting row => trivial

/-- The retired secret passes, then the new one, and then the retired one no more. -/
theorem rotations_graceful_inTurn : ∃ g,
    execGuarded Coop.step timelyCheck rotationIdle (rotateRun 0 1000 "secret-a" ++
      deliverRun 1 2000 4 "url-secret" ++ deliverRun 2 3000 4 "secret-a" ++
      deliverRun 3 4000 4 "url-secret") = some g ∧
    g.shared.decisions.map (fun x => x.view.refusal) =
      [some (404, ("secret_mismatch" : Text)), none, none] ∧
    ∀ x ∈ g.shared.decisions, GraceKept rotationPlatform x := by
  have hrun : (execGuarded Coop.step timelyCheck rotationIdle (rotateRun 0 1000 "secret-a" ++
      deliverRun 1 2000 4 "url-secret" ++ deliverRun 2 3000 4 "secret-a" ++
      deliverRun 3 4000 4 "url-secret")).map
        (fun g => g.shared.decisions.map fun x => x.view.refusal) =
      some [some (404, ("secret_mismatch" : Text)), none, none] := by
    decide +kernel
  obtain ⟨g, hg, hseen⟩ := Option.map_eq_some_iff.mp hrun
  have hreaches : Reaches Coop.step (Timely rotationPlatform) rotationIdle g :=
    reaches_of_execGuarded (fun _ _ => timely_of_check) hg
  exact ⟨g, hg, hseen, rotations_graceful hreaches⟩

def firstRotation : Rotation where
  handle := "whk_1"
  retired := "bdde0fdf9960db59eaf5a9aa1466f6a8666bf20ecd42b8a0869c23022ca61a97"
  issued := "8766b9cb08e6040b704f1e3ee1e186efccf2635b1d2634d6525333007e6aeae1"
  now := 1000

def secondRotation : Rotation where
  handle := "whk_1"
  retired := "8766b9cb08e6040b704f1e3ee1e186efccf2635b1d2634d6525333007e6aeae1"
  issued := "ff492ef788c89b555e6f738b33d2422f57dbb6656af2402155672c5f123a90af"
  now := 3000

/-- **A stale delivery ends the grace.**  It carries the current secret and is decided after the
    second rotation; the next delivery with that secret is refused a second later. -/
theorem staleClears : ∃ g,
    @Reaches _ _ Coop.step (fun _ _ => True) rotationIdle g ∧
    ∃ x ∈ g.shared.decisions, x.outcome = .error (404, "secret_mismatch") ∧
      ¬ GraceKept rotationPlatform x := by
  have hrun : (exec Coop.step rotationIdle (rotateRun 0 1000 "secret-a" ++
      deliverRun 1 2000 3 "secret-a" ++ rotateRun 2 3000 "secret-b" ++ resumes 1 2000 1 [] ++
      deliverRun 3 4000 4 "secret-a")).map (fun g => g.shared.decisions.map Decision.view) =
      some [⟨"secret-a", "whk_1", 4000, [.admitted "whk_1" firstRotation.issued,
          .rotated secondRotation, .rotated firstRotation], [.admitted "whk_1" firstRotation.issued,
          .rotated secondRotation, .rotated firstRotation], some (404, "secret_mismatch")⟩,
        ⟨"secret-a", "whk_1", 2000, [.rotated firstRotation],
          [.rotated secondRotation, .rotated firstRotation], none⟩] := by
    decide +kernel
  obtain ⟨g, hg, hseen⟩ := Option.map_eq_some_iff.mp hrun
  obtain ⟨x, hx, hview⟩ := List.mem_map.mp (hseen ▸ List.mem_cons_self)
  have herror : x.outcome = .error (404, "secret_mismatch") :=
    view_error (congrArg DecisionView.refusal hview)
  refine ⟨g, reaches_of_exec hg, x, hx, herror, fun h => ?_⟩
  have hstarted : x.started = [.admitted "whk_1" firstRotation.issued] ++
      .rotated secondRotation :: [.rotated firstRotation] := congrArg DecisionView.started hview
  have hhandle : x.delivery.handle = "whk_1" := congrArg DecisionView.handle hview
  have hsecret : x.delivery.secret = "secret-a" := congrArg DecisionView.secret hview
  have hnow : x.now = 4000 := congrArg DecisionView.now hview
  have hpasses := h.honoured _ _ _ hstarted hhandle.symm
    (fun mark hmark => by
      rw [List.mem_singleton.mp hmark]
      exact ⟨rfl, by decide⟩)
    (by rw [hsecret]; decide) (by rw [hnow]; decide)
  rw [herror] at hpasses
  exact absurd hpasses (by simp)

end KodyCelld.Webhooks
