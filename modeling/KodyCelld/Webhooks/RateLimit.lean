import KodyCelld.Webhooks.Authorised
import Mathlib.Data.List.TakeWhile

namespace KodyCelld.Webhooks

open KodyCelld.Lib KodyCelld.Packages

/-!
# The rate of admissions

How many deliveries of one UTC minute are admitted, over every interleaving and every order of stamps.

* `admittedOf` — how many calls of a minute a count that is forgotten between minutes admits;
* `admittedOf_le_iff` — it admits no more than the limit exactly if the calls of the minute are no
  more, or come together;
* `Counts` — the table of counts after any run, as a function of the calls that came to it;
* `admissions_within_rate` — when the declared rate holds, exactly;
* `alternatingStamps` — a run over a minute boundary that exceeds it.
-/

/-! ### A count that other minutes erase -/

section
variable {α : Type} [DecidableEq α] {m k : α} {l : List α}

/-- How often the key stands in a row at the head of the list. -/
def leading (m : α) (l : List α) : ℕ := (l.takeWhile fun k => decide (k = m)).length

/-- How many calls of a key are admitted, the latest call first: a call is admitted while fewer than
    the limit of its key stand right before it. -/
def admittedOf (limit : ℕ) (m : α) : List α → ℕ
  | [] => 0
  | k :: l => admittedOf limit m l + if k = m ∧ leading m l < limit then 1 else 0

/-- The calls of the key come together: behind the first run of them there is none. -/
def Together (m : α) (l : List α) : Prop :=
  m ∉ (l.dropWhile fun k => decide (k ≠ m)).dropWhile fun k => decide (k = m)

instance : Decidable (Together m l) := inferInstanceAs (Decidable (m ∉ _))

theorem admittedOf_cons_self (limit : ℕ) : admittedOf limit m (m :: l) =
    admittedOf limit m l + if leading m l < limit then 1 else 0 := by
  rw [admittedOf]
  simp only [true_and]

theorem admittedOf_cons_ne (limit : ℕ) (h : k ≠ m) :
    admittedOf limit m (k :: l) = admittedOf limit m l := by
  rw [admittedOf, if_neg fun hk => h hk.1]
  rfl

@[simp] theorem leading_cons_self : leading m (m :: l) = leading m l + 1 := by
  simp [leading]

theorem leading_cons_ne (h : k ≠ m) : leading m (k :: l) = 0 := by
  simp [leading, h]

theorem leading_le_count : leading m l ≤ l.count m := by
  induction l with
  | nil => exact le_rfl
  | cons k l ih =>
    by_cases hk : k = m
    · subst hk
      rw [leading_cons_self, List.count_cons_self]
      omega
    · rw [leading_cons_ne hk]
      omega

theorem together_cons_ne (h : k ≠ m) : Together m (k :: l) ↔ Together m l := by
  unfold Together
  rw [List.dropWhile_cons_of_pos (by simpa using h)]

/-- Behind a call of the key: either more of them follow, or none comes later. -/
theorem together_cons_self : Together m (m :: l) ↔ leading m l = l.count m := by
  have hhead : Together m (m :: l) ↔ m ∉ l.dropWhile fun k => decide (k = m) := by
    unfold Together
    rw [List.dropWhile_cons_of_neg (by simp), List.dropWhile_cons_of_pos (by simp)]
  rw [hhead]
  have hsplit : l.count m = leading m l + (l.dropWhile fun k => decide (k = m)).count m := by
    conv_lhs => rw [← List.takeWhile_append_dropWhile (p := fun k => decide (k = m)) (l := l)]
    rw [List.count_append]
    congr 1
    refine List.count_eq_length.mpr fun k hk => ?_
    have hpass := List.mem_takeWhile_imp hk
    exact (of_decide_eq_true hpass).symm
  rw [← List.count_eq_zero]
  omega

theorem admittedOf_le_count (limit : ℕ) : admittedOf limit m l ≤ l.count m := by
  induction l with
  | nil => exact le_rfl
  | cons k l ih =>
    by_cases hk : k = m
    · subst hk
      rw [admittedOf_cons_self, List.count_cons_self]
      split
      · omega
      · omega
    · rw [admittedOf_cons_ne limit hk, List.count_cons_of_ne hk]
      exact ih

/-- Calls that come together are admitted up to the limit. -/
theorem admittedOf_together (limit : ℕ) (h : Together m l) :
    admittedOf limit m l = min limit (l.count m) := by
  induction l with
  | nil => simp [admittedOf]
  | cons k l ih =>
    by_cases hk : k = m
    · subst hk
      rw [together_cons_self] at h
      -- every later call of the key stands right before this one
      have hrest : Together k l ∨ l.count k = 0 := by
        cases l with
        | nil => exact .inr rfl
        | cons j l =>
          by_cases hj : j = k
          · subst hj
            rw [leading_cons_self, List.count_cons_self] at h
            exact .inl (together_cons_self.mpr (by omega))
          · rw [leading_cons_ne hj] at h
            exact .inr h.symm
      have hold : admittedOf limit k l = min limit (l.count k) := by
        rcases hrest with htogether | hzero
        · exact ih htogether
        · have hle : admittedOf limit k l ≤ l.count k := admittedOf_le_count limit
          omega
      rw [admittedOf_cons_self, hold, List.count_cons_self, h]
      split
      · omega
      · omega
    · rw [together_cons_ne hk] at h
      rw [admittedOf_cons_ne limit hk, ih h, List.count_cons_of_ne hk]

/-- Calls that do not come together are admitted beyond any limit that they exceed. -/
theorem admittedOf_apart {limit : ℕ} (hlimit : 0 < limit) (h : ¬ Together m l) :
    min (l.count m) (limit + 1) ≤ admittedOf limit m l := by
  induction l with
  | nil => exact absurd (by simp [Together]) h
  | cons k l ih =>
    by_cases hk : k = m
    · subst hk
      rw [together_cons_self] at h
      have hle : leading k l ≤ l.count k := leading_le_count
      rw [admittedOf_cons_self, List.count_cons_self]
      by_cases htogether : Together k l
      · -- the calls of the key are one run, and this one stands apart from it
        have hold := admittedOf_together limit htogether
        have hzero : leading k l = 0 := by
          cases l with
          | nil => rfl
          | cons j l =>
            by_cases hj : j = k
            · subst hj
              rw [leading_cons_self, List.count_cons_self] at h
              exact absurd (together_cons_self.mp htogether) (by omega)
            · exact leading_cons_ne hj
        rw [hold, hzero, if_pos hlimit]
        omega
      · have hold := ih htogether
        split
        · omega
        · omega
    · rw [together_cons_ne hk] at h
      rw [admittedOf_cons_ne limit hk, List.count_cons_of_ne hk]
      exact ih h

/-- **The exact condition.**  At most the limit is admitted exactly if nothing may be, the calls of
    the key are no more than the limit, or they come together. -/
theorem admittedOf_le_iff {limit : ℕ} :
    admittedOf limit m l ≤ limit ↔ limit = 0 ∨ l.count m ≤ limit ∨ Together m l := by
  constructor
  · intro hle
    by_contra hnot
    rw [not_or, not_or] at hnot
    obtain ⟨hlimit, hcount, htogether⟩ := hnot
    have := admittedOf_apart (Nat.pos_of_ne_zero hlimit) htogether
    omega
  · rintro (rfl | hcount | htogether)
    · induction l with
      | nil => exact le_rfl
      | cons k l ih =>
        rw [admittedOf, if_neg fun h => absurd h.2 (by omega)]
        exact ih
    · exact le_trans (admittedOf_le_count limit) hcount
    · rw [admittedOf_together limit htogether]
      omega

end

/-! ### What a piece does to the gate -/

/-- The tables and the lists that admissions read are as they were. -/
structure GateKept (s s' : WebhookState) : Prop where
  webhooks : s'.webhooks = s.webhooks
  rates : s'.rates = s.rates
  arrivals : s'.arrivals = s.arrivals
  admissions : s'.admissions = s.admissions

theorem admitPiece_state {p : Platform} {s : WebhookState} {d : Delivery} {now : ℕ}
    {row : WebhookRow} : (admitPiece p s d now row).1 = (webhookAdmit p s d now row).2 := by
  unfold admitPiece
  split
  · rename_i heq
    rw [heq]
  · rename_i heq
    rw [heq]

/-- **Inversion.**  A piece leaves the gate alone, is the admission of a delivery, or rotates or
    switches a handle. -/
theorem piece_gate {p : Platform} {s s' : WebhookState} {f : Frame} {i : Input} {out : Frame ⊕ Ret}
    (h : piece p s f i = some (s', out)) :
    GateKept s s' ∨
    (∃ d now row, f = .hashing d now row ∧ s' = (webhookAdmit p s d now row).2) ∨
    (∃ handle, f = .rotating handle ∧ s' = rotate p s handle i) ∨
    ∃ handle enabled, f = .start (.webhookSetEnabled handle enabled) ∧
      s' = { s with
        webhooks := updateWebhook s.webhooks handle
          (fun row => { row with enabled := enabled, updatedAt := i.now }) fun _ => rfl } := by
  cases f with
  | start call =>
    have hstart : startPiece p s i call = (s', out) := Option.some.inj h
    unfold startPiece at hstart
    cases call with
    | deliver request =>
      left
      dsimp only at hstart
      split at hstart
      · obtain ⟨rfl, -⟩ := Prod.mk.inj hstart
        exact ⟨rfl, rfl, rfl, rfl⟩
      · obtain ⟨rfl, -⟩ := Prod.mk.inj hstart
        exact ⟨rfl, rfl, rfl, rfl⟩
    | webhookRotate handle =>
      left
      dsimp only at hstart
      split at hstart
      · obtain ⟨rfl, -⟩ := Prod.mk.inj hstart
        exact ⟨rfl, rfl, rfl, rfl⟩
      · obtain ⟨rfl, -⟩ := Prod.mk.inj hstart
        exact ⟨rfl, rfl, rfl, rfl⟩
    | webhookSetEnabled handle enabled =>
      dsimp only at hstart
      split at hstart
      · obtain ⟨rfl, -⟩ := Prod.mk.inj hstart
        exact .inl ⟨rfl, rfl, rfl, rfl⟩
      · obtain ⟨rfl, -⟩ := Prod.mk.inj hstart
        exact .inr (.inr (.inr ⟨handle, enabled, rfl, rfl⟩))
    | packageWrite name manifest =>
      obtain ⟨rfl, -⟩ := Prod.mk.inj hstart
      exact .inl ⟨rfl, rfl, rfl, rfl⟩
    | secretWrite secrets =>
      obtain ⟨rfl, -⟩ := Prod.mk.inj hstart
      exact .inl ⟨rfl, rfl, rfl, rfl⟩
  | lookingUp d =>
    left
    unfold piece at h
    dsimp only at h
    split at h
    · obtain ⟨rfl, -⟩ := Prod.mk.inj (Option.some.inj h)
      exact ⟨rfl, rfl, rfl, rfl⟩
    · obtain ⟨rfl, -⟩ := Prod.mk.inj (Option.some.inj h)
      exact ⟨rfl, rfl, rfl, rfl⟩
  | admitting d now =>
    left
    unfold piece at h
    dsimp only at h
    split at h
    · obtain ⟨rfl, -⟩ := Prod.mk.inj (Option.some.inj h)
      exact ⟨rfl, rfl, rfl, rfl⟩
    · obtain ⟨rfl, -⟩ := Prod.mk.inj (Option.some.inj h)
      exact ⟨rfl, rfl, rfl, rfl⟩
  | hashing d now row =>
    obtain ⟨rfl, -⟩ := Prod.mk.inj (Option.some.inj h)
    exact .inr (.inl ⟨d, now, row, rfl, admitPiece_state⟩)
  | readingBody d adm =>
    obtain ⟨rfl, -⟩ := Prod.mk.inj (Option.some.inj h)
    exact .inl ⟨rfl, rfl, rfl, rfl⟩
  | checkingSignature d adm v candidates message =>
    left
    have hpiece : signaturePiece p s d adm v candidates message = (s', out) := Option.some.inj h
    unfold signaturePiece at hpiece
    split at hpiece
    · obtain ⟨rfl, -⟩ := Prod.mk.inj hpiece
      exact ⟨rfl, rfl, rfl, rfl⟩
    · obtain ⟨rfl, -⟩ := Prod.mk.inj hpiece
      exact ⟨rfl, rfl, rfl, rfl⟩
    · split at hpiece
      · obtain ⟨rfl, -⟩ := Prod.mk.inj hpiece
        exact ⟨rfl, rfl, rfl, rfl⟩
      · obtain ⟨rfl, -⟩ := Prod.mk.inj hpiece
        exact ⟨rfl, rfl, rfl, rfl⟩
  | claiming x params id =>
    obtain ⟨rfl, -⟩ := Prod.mk.inj (Option.some.inj h)
    exact .inl ⟨rfl, rfl, rfl, rfl⟩
  | accepting x params attempt =>
    left
    obtain ⟨⟨s₁, f₁⟩, haccept, heq⟩ := Option.map_eq_some_iff.mp h
    obtain ⟨rfl, -⟩ := Prod.mk.inj heq
    unfold acceptPiece at haccept
    extract_lets ack record at haccept
    obtain ⟨s₂, hrecord, heq⟩ := Option.map_eq_some_iff.mp haccept
    obtain ⟨deliveries, rfl⟩ := webhookDeliveryRecord_eq hrecord
    obtain ⟨rfl, -⟩ := Prod.mk.inj heq
    split
    · exact ⟨rfl, rfl, rfl, rfl⟩
    · exact ⟨rfl, rfl, rfl, rfl⟩
  | running x attempt deliveryId =>
    obtain ⟨rfl, -⟩ := Prod.mk.inj (Option.some.inj h)
    exact .inl ⟨rfl, rfl, rfl, rfl⟩
  | finishing x attempt deliveryId outcome =>
    left
    have hfinish : finishPiece s x attempt deliveryId outcome i.now = (s', out) :=
      Option.some.inj h
    unfold finishPiece at hfinish
    extract_lets s₁ at hfinish
    have hledger : ∃ deliveries, s₁ = { s with deliveries := deliveries } := by
      cases outcome with
      | threw message => exact ⟨_, rfl⟩
      | finished ok runId result error => exact ⟨_, rfl⟩
    obtain ⟨deliveries, hs₁⟩ := hledger
    split at hfinish
    · obtain ⟨answers, hanswers⟩ := @conclude_eq s₁ x none deliveryId outcome
      rw [hanswers, hs₁] at hfinish
      obtain ⟨rfl, -⟩ := Prod.mk.inj hfinish
      exact ⟨rfl, rfl, rfl, rfl⟩
    · rw [hs₁] at hfinish
      obtain ⟨rfl, -⟩ := Prod.mk.inj hfinish
      exact ⟨rfl, rfl, rfl, rfl⟩
  | finishingClaim x attempt deliveryId outcome =>
    obtain ⟨rfl, -⟩ := Prod.mk.inj (Option.some.inj h)
    obtain ⟨idempotency, answers, heq⟩ := @finishClaimPiece_eq s x attempt deliveryId outcome
    rw [heq]
    exact .inl ⟨rfl, rfl, rfl, rfl⟩
  | recording d record attempt response =>
    obtain ⟨s₁, hrecord, heq⟩ := Option.map_eq_some_iff.mp h
    obtain ⟨deliveries, rfl⟩ := webhookDeliveryRecord_eq hrecord
    obtain ⟨rfl, -⟩ := Prod.mk.inj heq
    exact .inl ⟨rfl, rfl, rfl, rfl⟩
  | rotating handle =>
    obtain ⟨rfl, -⟩ := Prod.mk.inj (Option.some.inj h)
    exact .inr (.inr (.inl ⟨handle, rfl, rfl⟩))

/-! ### The counts of one handle -/

/-- The minutes of the calls of the handle that came to the count, latest first. -/
def minutesOf (s : WebhookState) (handle : Text) : List ℕ :=
  (s.arrivals.filter fun a => decide (a.1 = handle)).map Prod.snd

/-- The counts and the admissions, as functions of the calls that came. -/
structure Counts (handle : Text) (limit : ℕ) (s : WebhookState) : Prop where
  count : ∀ m, rateCount s.rates handle m = min limit (leading m (minutesOf s handle))
  admitted : ∀ m, s.admittedIn handle m = admittedOf limit m (minutesOf s handle)

section
variable {p : Platform} {s s' : WebhookState} {d : Delivery} {now : ℕ} {row : WebhookRow}
  {handle h : Text} {limit minute m : ℕ} {rates : Rows RateRow.key}

theorem rateCount_drop_minute (hne : m ≠ minute) :
    rateCount (dropOtherMinutes rates handle minute) handle m = 0 := by
  unfold rateCount dropOtherMinutes
  rw [Rows.find?_filter]
  cases hfind : rates.find? (handle, m) with
  | none => rfl
  | some row =>
    have hkey := (Rows.find?_eq_some.mp hfind).2
    have hhandle : row.handle = handle := congrArg Prod.fst hkey
    have hminute : row.minute = m := congrArg Prod.snd hkey
    simp [Option.filter, hhandle, hminute, hne]

/-- Where another handle is delivered to, or nothing is. -/
theorem Counts.of_same (hcounts : Counts handle limit s)
    (hminutes : minutesOf s' handle = minutesOf s handle)
    (hrates : ∀ m, rateCount s'.rates handle m = rateCount s.rates handle m)
    (hadmitted : ∀ m, s'.admittedIn handle m = s.admittedIn handle m) : Counts handle limit s' := by
  refine ⟨fun m => ?_, fun m => ?_⟩
  · rw [hrates, hminutes, hcounts.count]
  · rw [hadmitted, hminutes, hcounts.admitted]

theorem minutesOf_other (hne : h ≠ handle) (harrivals : s'.arrivals = (h, minute) :: s.arrivals) :
    minutesOf s' handle = minutesOf s handle := by
  unfold minutesOf
  rw [harrivals, List.filter_cons_of_neg (by simpa using hne)]

theorem minutesOf_own (harrivals : s'.arrivals = (handle, minute) :: s.arrivals) :
    minutesOf s' handle = minute :: minutesOf s handle := by
  unfold minutesOf
  rw [harrivals, List.filter_cons_of_pos (by simp), List.map_cons]

/-- A delivery to another handle is turned away. -/
theorem Counts.away (hcounts : Counts handle limit s) (hne : h ≠ handle) :
    Counts handle limit (turnedAway s h minute) := by
  refine hcounts.of_same (minutesOf_other hne rfl) (fun m => ?_) fun m => rfl
  exact rateCount_drop_other (Ne.symm hne)

/-- A delivery to another handle is admitted. -/
theorem Counts.other (hcounts : Counts handle limit s) (hne : d.handle ≠ handle) :
    Counts handle limit (admittedState p s d now row) := by
  have hkey : ∀ m, (d.handle, now / 60000) ≠ (handle, m) := fun m heq =>
    hne (congrArg Prod.fst heq)
  refine hcounts.of_same (minutesOf_other hne rfl) (fun m => ?_) fun m => ?_
  · show rateCount (countDelivery _ d.handle (now / 60000)) handle m = _
    rw [rateCount_count, if_neg (hkey m), rateCount_drop_other (Ne.symm hne)]
    rfl
  · show ((d.handle, now / 60000) :: s.admissions).count (handle, m) = _
    rw [count_admission, if_neg (hkey m)]
    rfl

/-- **A delivery that is turned away** finds as many of its minute right before it as are allowed. -/
theorem Counts.turnedAway (hcounts : Counts handle limit s)
    (hfull : limit ≤ rateCount s.rates handle minute) :
    Counts handle limit (turnedAway s handle minute) := by
  have hminutes : minutesOf (Webhooks.turnedAway s handle minute) handle =
      minute :: minutesOf s handle := minutesOf_own rfl
  have hleading : limit ≤ leading minute (minutesOf s handle) := by
    have hcount := hcounts.count minute
    omega
  refine ⟨fun m => ?_, fun m => ?_⟩
  · show rateCount (dropOtherMinutes s.rates handle minute) handle m = _
    rw [hminutes]
    by_cases hm : m = minute
    · subst hm
      rw [rateCount_drop, hcounts.count, leading_cons_self]
      omega
    · rw [rateCount_drop_minute hm, leading_cons_ne (Ne.symm hm)]
      omega
  · show s.admittedIn handle m = _
    rw [hminutes, hcounts.admitted]
    by_cases hm : m = minute
    · subst hm
      rw [admittedOf_cons_self, if_neg (by omega)]
      rfl
    · rw [admittedOf_cons_ne limit (Ne.symm hm)]

/-- **A delivery that is admitted** finds fewer. -/
theorem Counts.admission (hcounts : Counts d.handle limit s)
    (hfree : rateCount s.rates d.handle (now / 60000) < limit) :
    Counts d.handle limit (admittedState p s d now row) := by
  have hminutes : minutesOf (admittedState p s d now row) d.handle =
      now / 60000 :: minutesOf s d.handle := minutesOf_own rfl
  have hleading : leading (now / 60000) (minutesOf s d.handle) < limit := by
    have hcount := hcounts.count (now / 60000)
    omega
  refine ⟨fun m => ?_, fun m => ?_⟩
  · show rateCount (countDelivery _ d.handle (now / 60000)) d.handle m = _
    rw [hminutes, rateCount_count]
    by_cases hm : m = now / 60000
    · subst hm
      rw [if_pos rfl, rateCount_drop, hcounts.count, leading_cons_self]
      omega
    · rw [if_neg fun heq => hm (congrArg Prod.snd heq).symm, rateCount_drop_minute hm,
        leading_cons_ne (Ne.symm hm)]
      omega
  · show ((d.handle, now / 60000) :: s.admissions).count (d.handle, m) = _
    rw [hminutes, count_admission, hcounts.admitted]
    by_cases hm : m = now / 60000
    · subst hm
      rw [if_pos rfl, admittedOf_cons_self, if_pos hleading]
    · rw [if_neg fun heq => hm (congrArg Prod.snd heq).symm, admittedOf_cons_ne limit (Ne.symm hm)]
      rfl

/-! ### Runs -/

/-- The rate that a delivery to the handle finds declared is the limit. -/
def Declared (p : Platform) (handle : Text) (limit : ℕ) (g : Coop.Config (webhooks p))
    (e : Coop.Event (webhooks p)) : Prop :=
  ∀ t i c d now row manifest definition, e = .resume t i →
    g.pool t = some (c, .hashing d now row) → d.handle = handle →
    g.shared.webhookDefinition row.packageName row.webhookName = some (manifest, definition) →
    definition.rateLimitPerMinute = limit

/-- **Step lemma.** -/
theorem Counts.piece {f : Frame} {i : Input} {out : Frame ⊕ Ret} (hcounts : Counts handle limit s)
    (hdeclared : ∀ d now row manifest definition, f = .hashing d now row → d.handle = handle →
      s.webhookDefinition row.packageName row.webhookName = some (manifest, definition) →
      definition.rateLimitPerMinute = limit)
    (h : piece p s f i = some (s', out)) : Counts handle limit s' := by
  rcases piece_gate h with hkept | ⟨d, now, row, rfl, rfl⟩ | ⟨other, rfl, rfl⟩ |
    ⟨other, enabled, rfl, rfl⟩
  · refine hcounts.of_same ?_ (fun m => by rw [hkept.rates]) fun m => ?_
    · unfold minutesOf
      rw [hkept.arrivals]
    · unfold WebhookState.admittedIn
      rw [hkept.admissions]
  · cases hdecision : webhookAdmit p s d now row with
    | mk r s' =>
      rcases webhookAdmit_cases hdecision with ⟨-, -, rfl⟩ |
        ⟨manifest, definition, -, hdefinition, hcount, -, rfl⟩ |
        ⟨manifest, definition, -, hdefinition, hcount, -, rfl⟩
      · exact hcounts
      · by_cases hhandle : d.handle = handle
        · subst hhandle
          have hlimit := hdeclared d now row manifest definition rfl rfl hdefinition
          rw [rateCount_drop, hlimit] at hcount
          exact hcounts.turnedAway hcount
        · exact hcounts.away hhandle
      · by_cases hhandle : d.handle = handle
        · subst hhandle
          have hlimit := hdeclared d now row manifest definition rfl rfl hdefinition
          rw [rateCount_drop, hlimit] at hcount
          exact hcounts.admission hcount
        · exact hcounts.other hhandle
  · exact hcounts.of_same rfl (fun m => rfl) fun m => rfl
  · exact hcounts.of_same rfl (fun m => rfl) fun m => rfl

theorem Counts.step {g g' : Coop.Config (webhooks p)} {e : Coop.Event (webhooks p)}
    (hcounts : Counts handle limit g.shared) (hdeclared : Declared p handle limit g e)
    (h : Coop.step g e = some g') : Counts handle limit g'.shared := by
  rcases Coop.step_ran h with ⟨t, c, rfl, hfree, rfl⟩ | ⟨t, i, c, f, out, rfl, hran⟩
  · exact hcounts
  · refine hcounts.piece (fun d now row manifest definition hf hhandle hfound => ?_) hran.runs
    have hpool : g.pool t = some (c, .hashing d now row) := hf ▸ hran.before
    exact hdeclared t i c d now row manifest definition rfl hpool hhandle hfound

end

/-- **When the rate holds.**  In every run under one declared rate, whatever the stamps and the
    interleaving: every minute has at most so many admissions exactly if, of the calls that came to
    the count, those of any minute are no more or have no call of another minute between them. -/
theorem admissions_within_rate {p : Platform} {rows : Rows WebhookRow.handle}
    {manifests : Text → Option PackageManifest} {secrets : List SecretRow} {handle : Text}
    {limit : ℕ} {g : Coop.Config (webhooks p)}
    (h : Reaches Coop.step (Declared p handle limit) (Coop.idle (minted p rows manifests secrets)) g) :
    (∀ minute, g.shared.admittedIn handle minute ≤ limit) ↔
      ∀ minute, limit = 0 ∨ (minutesOf g.shared handle).count minute ≤ limit ∨
        Together minute (minutesOf g.shared handle) := by
  have hcounts : Counts handle limit g.shared := by
    refine h.invariant (fun g => Counts handle limit g.shared)
      (fun s e s' hs hguard hstep => hs.step hguard hstep) ⟨fun m => ?_, fun m => rfl⟩
    show 0 = min limit 0
    omega
  refine forall_congr' fun minute => ?_
  rw [hcounts.admitted]
  exact admittedOf_le_iff

/-! ### Examples -/

/-- Deliveries of these stamps, one after the other, each up to the end of its admission. -/
def stampedRun (stamps : List ℕ) : List (Coop.Event (webhooks samplePlatform)) :=
  (stamps.zipIdx.map fun x => deliveryRun x.2 x.1 4 (sampleRequest [] "a")).flatten

/-- `Declared` of the sample handle as a check. -/
def declaredCheck (limit : ℕ) (g : Coop.Config (webhooks samplePlatform)) :
    Coop.Event (webhooks samplePlatform) → Bool
  | .call _ _ => true
  | .resume t _ =>
    match g.pool t with
    | some (_, .hashing _ _ row) =>
      (g.shared.webhookDefinition row.packageName row.webhookName).all fun found =>
        decide (found.2.rateLimitPerMinute = limit)
    | _ => true

theorem declared_of_check {handle : Text} {limit : ℕ} {g : Coop.Config (webhooks samplePlatform)}
    {e : Coop.Event (webhooks samplePlatform)} (h : declaredCheck limit g e = true) :
    Declared samplePlatform handle limit g e := by
  rintro t i c d now row manifest definition rfl hpool - hfound
  unfold declaredCheck at h
  simp only [hpool, hfound, Option.all_some, decide_eq_true_eq] at h
  exact h

/-- Two deliveries of one minute and one of the next, with a limit of one. -/
theorem admissions_within_rate_inOrder : ∃ g,
    execGuarded Coop.step (declaredCheck 1) (sampleIdle (sampleDefinition 1 none none) [])
      (stampedRun [60001, 60002, 120000]) = some g ∧ g.shared.admissions.length = 2 ∧
    ∀ minute, g.shared.admittedIn "whk_1" minute ≤ 1 := by
  have hrun : (execGuarded Coop.step (declaredCheck 1)
      (sampleIdle (sampleDefinition 1 none none) []) (stampedRun [60001, 60002, 120000])).map
        (fun g => (g.shared.admissions.length, minutesOf g.shared "whk_1")) = some (2, [2, 1, 1]) := by
    decide +kernel
  obtain ⟨g, hg, hseen⟩ := Option.map_eq_some_iff.mp hrun
  obtain ⟨hadmissions, hminutes⟩ := Prod.mk.inj hseen
  have hreaches : Reaches Coop.step (Declared samplePlatform "whk_1" 1) _ g :=
    reaches_of_execGuarded (fun _ _ => declared_of_check) hg
  refine ⟨g, hg, hadmissions, (admissions_within_rate hreaches).mpr fun minute => ?_⟩
  rw [hminutes]
  by_cases hone : minute = 1
  · subst hone
    exact .inr (.inr (by decide))
  · -- of every other minute there is one call at most
    refine .inr (.inl ?_)
    have hcount : ([2, 1, 1] : List ℕ).count minute = ([2] : List ℕ).count minute := by
      rw [List.count_cons, List.count_cons_of_ne (Ne.symm hone), List.count_cons_of_ne (Ne.symm hone),
        List.count_cons]
    rw [hcount]
    exact List.count_le_length

/-- **Alternating stamps.**  With a limit of one delivery a minute, a stamp of the minute before
    makes room for a second delivery of the minute. -/
theorem alternatingStamps : ∃ g,
    @Reaches _ _ Coop.step (Declared samplePlatform "whk_1" 1)
      (sampleIdle (sampleDefinition 1 none none) []) g ∧
    minutesOf g.shared "whk_1" = [1, 0, 1] ∧ g.shared.admittedIn "whk_1" 1 = 2 := by
  have hrun : (execGuarded Coop.step (declaredCheck 1)
      (sampleIdle (sampleDefinition 1 none none) []) (stampedRun [60001, 59999, 60002])).map
        (fun g => (minutesOf g.shared "whk_1", g.shared.admittedIn "whk_1" 1)) =
      some ([1, 0, 1], 2) := by
    decide +kernel
  obtain ⟨g, hg, hseen⟩ := Option.map_eq_some_iff.mp hrun
  obtain ⟨hminutes, hadmitted⟩ := Prod.mk.inj hseen
  exact ⟨g, reaches_of_execGuarded (fun _ _ => declared_of_check) hg, hminutes, hadmitted⟩

end KodyCelld.Webhooks
