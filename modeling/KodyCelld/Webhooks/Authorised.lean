import KodyCelld.Webhooks.Ingress

namespace KodyCelld.Webhooks

open KodyCelld.Lib KodyCelld.Execute KodyCelld.Packages

/-!
# What authorises the run of a webhook

Over every interleaving of deliveries with rotations, switches, package saves and secret writes.

* `Authorised` — what is asked of a delivery before it is run: URL secret, switch, declaration,
  rate, size, timestamp and signature;
* `Sound` — a step that reaches neither of two gaps: the key of a signature is looked up under a name
  that every object inherits, or a minute comes back after the count forgot it;
* `runs_authorised` — in every run of sound steps each run that starts is authorised, and one signed
  message is of one timestamp where the body is the same;
* `inheritedKey` — a run that reaches the first gap.
-/

/-! ### What is asked of a delivery -/

/-- The URL secret is the current one of the row, or the previous one before it expires; texts are
    compared by their digests. -/
def SecretMatches (p : Platform) (d : Delivery) (row : WebhookRow) (now : ℕ) : Prop :=
  p.sha256Hex d.secret = p.sha256Hex row.secret ∨
    ∃ previous expiresAt, row.previousSecret = some previous ∧
      p.sha256Hex d.secret = p.sha256Hex previous ∧ row.previousExpiresAt = some expiresAt ∧
      now < expiresAt

structure Admitted (p : Platform) (d : Delivery) (adm : Admission) : Prop where
  handle : adm.row.handle = d.handle
  secret : SecretMatches p d adm.row adm.now
  enabled : adm.row.enabled = true
  declared : adm.definition ∈ adm.manifest.webhooks ∧ adm.definition.name = adm.row.webhookName
  rate : adm.earlier < adm.definition.rateLimitPerMinute

/-- Where a timestamp header is declared, it denotes a time within the tolerance. -/
def Fresh (p : Platform) (d : Delivery) (adm : Admission) : Prop :=
  ∀ name, timestampHeader adm.definition = some name → ∃ timestamp,
    parseTimestamp p.dateParse (d.request.header name) (replayFormat adm.definition) =
      some timestamp ∧
    withinTolerance timestamp adm.now (toleranceSeconds adm.definition) = true

/-- Some value in the signature header is the HMAC of the signed message under a stored secret. -/
structure SignatureHolds (p : Platform) (d : Delivery) (adm : Admission) (v : WebhookVerification)
    (signed : Signed) : Prop where
  stored : ∃ row ∈ signed.secrets, row.name = v.secretName ∧
    (row.scope = .package → row.packageName = adm.row.packageName) ∧ row.value = some signed.key
  carried : ∃ raw candidate, d.request.header v.header = some raw ∧ candidate <:+: raw ∧
    candidateMatches (p.hmac signed.key signed.message) v.encoding candidate = true
  message : signedMessage v d.request.body (timestampRaw d.request adm.definition)
    (replayFormat adm.definition) = some signed.message

/-- The text is the timestamp in the signed message of the delivery, and it is the text whose time
    was found within the tolerance. -/
structure SignedTimestamp (p : Platform) (x : Passed) (message text : Text) : Prop where
  header : ∃ raw, timestampRaw x.delivery.request x.admission.definition = some raw ∧
    timestampText (replayFormat x.admission.definition) raw = some text
  checked : ∃ timestamp,
    timeOf p.dateParse (replayFormat x.admission.definition).bare text = some timestamp ∧
    withinTolerance timestamp x.admission.now (toleranceSeconds x.admission.definition) = true
  signed : message = text ++ '.' :: x.delivery.request.body

structure Authorised (p : Platform) (x : Passed) : Prop where
  admitted : Admitted p x.delivery x.admission
  size : x.delivery.request.bodyBytes ≤ p.webhookMaxBodyBytes
  fresh : Fresh p x.delivery x.admission
  signature : ∀ v, x.admission.definition.verification = some v →
    ∃ signed, x.signed = some signed ∧ SignatureHolds p x.delivery x.admission v signed
  timestamp : ∀ v signed, x.admission.definition.verification = some v → v.signedPayload ≠ .body →
    x.signed = some signed → ∃ text, SignedTimestamp p x signed.message text

/-! ### What a signature header carries -/

theorem trim_within (s : Text) : trim s <:+: s := by
  obtain ⟨before, after, hs, -, -⟩ := trim_split s
  refine ⟨before, after, ?_⟩
  rw [List.append_assoc]
  exact hs.symm

theorem mem_intersperse {α : Type} {sep a : α} {l : List α} (h : a ∈ l) : a ∈ l.intersperse sep := by
  induction l with
  | nil => exact absurd h List.not_mem_nil
  | cons b rest ih =>
    cases rest with
    | nil => exact h
    | cons c rest =>
      rw [List.intersperse_cons_cons]
      rcases List.mem_cons.mp h with rfl | hrest
      · exact List.mem_cons_self
      · exact List.mem_cons_of_mem _ (List.mem_cons_of_mem _ (ih hrest))

theorem splitOn_within {raw part : Text} (h : part ∈ raw.splitOn ',') : part <:+: raw := by
  have hjoin : List.intercalate [','] (raw.splitOn ',') = raw := List.intercalate_splitOn ','
  rw [← hjoin]
  exact List.infix_of_mem_flatten (mem_intersperse h)

theorem stripPrefix_within (value : Text) (start : Option Text) : stripPrefix value start <:+: value := by
  unfold stripPrefix
  split
  · exact List.infix_rfl
  · split
    · exact (List.drop_suffix _ _).isInfix
    · exact List.infix_rfl

theorem signatureCandidate_within {v : WebhookVerification} {part candidate : Text}
    (h : signatureCandidate v part = some candidate) : candidate <:+: part := by
  unfold signatureCandidate at h
  dsimp only at h
  split at h
  · exact absurd h (by simp)
  split at h
  · split at h
    · exact absurd h (by simp)
    · rw [← Option.some.inj h]
      refine (trim_within _).trans ?_
      rw [List.drop_drop]
      exact (List.drop_suffix _ _).isInfix.trans (trim_within part)
  · rw [← Option.some.inj h]
    exact (trim_within _).trans ((stripPrefix_within _ _).trans (trim_within part))

/-- **A candidate stands in the header.** -/
theorem parseSignatureHeader_within {raw : Option Text} {v : WebhookVerification} {candidate : Text}
    (h : candidate ∈ parseSignatureHeader raw v) : ∃ text, raw = some text ∧ candidate <:+: text := by
  unfold parseSignatureHeader at h
  split at h
  · exact absurd h List.not_mem_nil
  rename_i text
  split at h
  · exact absurd h List.not_mem_nil
  obtain ⟨part, hpart, hcandidate⟩ := List.mem_filterMap.mp (List.mem_of_mem_filter h)
  exact ⟨text, rfl, (signatureCandidate_within hcandidate).trans (splitOn_within hpart)⟩

/-! ### The gaps -/

/-- The delivery passes the checks before the count. -/
def Arrives (p : Platform) (s : WebhookState) (d : Delivery) (now : ℕ) (row : WebhookRow) : Prop :=
  (matchesCurrent p d row || matchesPrevious p d now row) = true ∧ row.enabled = true ∧
    (s.webhookDefinition row.packageName row.webhookName).isSome

/-- Nothing was admitted in the minute, or no delivery of another minute came to the count since. -/
def CountKept (s : WebhookState) (handle : Text) (minute : ℕ) : Prop :=
  s.admittedIn handle minute = 0 ∨
    s.arrivals.find? (fun a => a.1 = handle) = some (handle, minute)

/-- The name of a verification is no member of every object, or a secret of that name is stored and
    the name is not `__proto__`. -/
def KeyStored (s : WebhookState) (adm : Admission) (v : WebhookVerification) : Prop :=
  v.secretName ∉ objectPrototype ∨
    (v.secretName ≠ ("__proto__" : Text) ∧
      (secretMatch s.secrets v.secretName adm.row.packageName).isSome)

/-- The frame does not run into a gap. -/
def FrameSound (p : Platform) (s : WebhookState) : Frame → Prop
  | .hashing d now row => Arrives p s d now row → CountKept s d.handle (now / 60000)
  | .checkingSignature _ adm v _ _ => KeyStored s adm v
  | _ => True

/-- A step that does not run into a gap. -/
def Sound (p : Platform) (g : Coop.Config (webhooks p)) (e : Coop.Event (webhooks p)) : Prop :=
  ∀ t i c f, e = .resume t i → g.pool t = some (c, f) → FrameSound p g.shared f

/-! ### Admission -/

/-- The hashes of a row are those of its secrets. -/
def Hashed (p : Platform) (row : WebhookRow) : Prop :=
  row.secretHash = p.sha256Hex row.secret ∧
    row.previousSecretHash = row.previousSecret.map p.sha256Hex

/-- The counts are of the deliveries admitted in their minutes. -/
structure Counted (s : WebhookState) : Prop where
  rows : ∀ row ∈ s.rates.rows, row.n = s.admittedIn row.handle row.minute ∧ 0 < row.n
  latest : ∀ handle minute, s.arrivals.find? (fun a => a.1 = handle) = some (handle, minute) →
    rateCount s.rates handle minute = s.admittedIn handle minute

/-- What the checks count on in the tables. -/
structure Tables (p : Platform) (s : WebhookState) : Prop where
  hashed : ∀ row ∈ s.webhooks.rows, Hashed p row
  counted : Counted s

section
variable {p : Platform} {s s' : WebhookState} {d : Delivery} {now : ℕ} {row : WebhookRow}

/-- The other tables do not matter to the checks. -/
theorem Tables.congr (h : Tables p s) (hwebhooks : s'.webhooks = s.webhooks)
    (hrates : s'.rates = s.rates) (harrivals : s'.arrivals = s.arrivals)
    (hadmissions : s'.admissions = s.admissions) : Tables p s' := by
  have hin : ∀ handle minute, s'.admittedIn handle minute = s.admittedIn handle minute := by
    intro handle minute
    unfold WebhookState.admittedIn
    rw [hadmissions]
  refine ⟨hwebhooks ▸ h.hashed, fun row hrow => ?_, fun handle minute hlatest => ?_⟩
  · rw [hrates] at hrow
    rw [hin]
    exact h.counted.rows row hrow
  · rw [harrivals] at hlatest
    rw [hrates, hin]
    exact h.counted.latest handle minute hlatest

theorem hashed_updateWebhook {webhooks : Rows WebhookRow.handle} {handle : Text}
    {change : WebhookRow → WebhookRow} (hkey : ∀ row, (change row).handle = row.handle)
    (h : ∀ row ∈ webhooks.rows, Hashed p row) (hchange : ∀ row, Hashed p row → Hashed p (change row)) :
    ∀ row ∈ (updateWebhook webhooks handle change hkey).rows, Hashed p row := by
  intro row hrow
  obtain ⟨old, hold, rfl⟩ := Rows.mem_map.mp hrow
  split
  · exact hchange old (h old hold)
  · exact h old hold

theorem hashed_admitWebhook {webhooks : Rows WebhookRow.handle}
    (h : ∀ row ∈ webhooks.rows, Hashed p row) :
    ∀ r ∈ (admitWebhook p webhooks d now row).rows, Hashed p r := by
  unfold admitWebhook
  refine hashed_updateWebhook _ ?_ fun r hr => hr
  split
  · exact hashed_updateWebhook _ h fun r hr => ⟨hr.1, rfl⟩
  · exact h

/-- A secret that the admission accepts is one of the row's. -/
theorem secretMatches_of_hashed (hrow : Hashed p row)
    (h : (matchesCurrent p d row || matchesPrevious p d now row) = true) :
    SecretMatches p d row now := by
  rw [Bool.or_eq_true] at h
  rcases h with h | h
  · left
    rw [← hrow.1]
    exact of_decide_eq_true h
  · right
    simp only [matchesPrevious, Bool.and_eq_true, decide_eq_true_eq] at h
    obtain ⟨⟨hsome, hlive⟩, hsecret⟩ := h
    obtain ⟨hash, hhash⟩ := Option.isSome_iff_exists.mp hsome
    have hprevious : row.previousSecret.map p.sha256Hex = some hash := hrow.2.symm.trans hhash
    obtain ⟨previous, hprev, rfl⟩ := Option.map_eq_some_iff.mp hprevious
    obtain ⟨expiresAt, hexpires, hnow⟩ := (Option.any_eq_true _ _).mp hlive
    refine ⟨previous, expiresAt, hprev, ?_, hexpires, of_decide_eq_true hnow⟩
    rw [hsecret, hhash]
    rfl

/-- The state behind a delivery that came to the count and was turned away. -/
def turnedAway (s : WebhookState) (handle : Text) (minute : ℕ) : WebhookState :=
  { s with
    rates := dropOtherMinutes s.rates handle minute
    arrivals := (handle, minute) :: s.arrivals }

/-- The state behind a delivery that was admitted. -/
def admittedState (p : Platform) (s : WebhookState) (d : Delivery) (now : ℕ) (row : WebhookRow) :
    WebhookState :=
  { s with
    rates := countDelivery (dropOtherMinutes s.rates d.handle (now / 60000)) d.handle (now / 60000)
    webhooks := admitWebhook p s.webhooks d now row
    arrivals := (d.handle, now / 60000) :: s.arrivals
    admissions := (d.handle, now / 60000) :: s.admissions }

/-- **Inversion.** A delivery is refused before the count, turned away at it, or admitted. -/
theorem webhookAdmit_cases {r : Except (ℕ × Text) Admission}
    (h : webhookAdmit p s d now row = (r, s')) :
    (¬ Arrives p s d now row ∧ (∃ refusal, r = .error refusal) ∧ s' = s) ∨
    (∃ manifest definition, Arrives p s d now row ∧
      s.webhookDefinition row.packageName row.webhookName = some (manifest, definition) ∧
      definition.rateLimitPerMinute ≤
        rateCount (dropOtherMinutes s.rates d.handle (now / 60000)) d.handle (now / 60000) ∧
      r = .error (429, "rate_limited") ∧ s' = turnedAway s d.handle (now / 60000)) ∨
    ∃ manifest definition, Arrives p s d now row ∧
      s.webhookDefinition row.packageName row.webhookName = some (manifest, definition) ∧
      rateCount (dropOtherMinutes s.rates d.handle (now / 60000)) d.handle (now / 60000) <
        definition.rateLimitPerMinute ∧
      r = .ok ⟨row, manifest, definition, !matchesCurrent p d row, now,
        s.admittedIn d.handle (now / 60000)⟩ ∧
      s' = admittedState p s d now row := by
  unfold webhookAdmit at h
  split at h
  · rename_i hsecret
    obtain ⟨rfl, rfl⟩ := Prod.mk.inj h
    refine .inl ⟨fun harrives => ?_, ⟨_, rfl⟩, rfl⟩
    have hnone : (matchesCurrent p d row || matchesPrevious p d now row) = false := by
      rwa [← Bool.not_or, Bool.not_eq_true'] at hsecret
    exact absurd (harrives.1.symm.trans hnone) (by simp)
  · rename_i hsecret
    have hsecret : (matchesCurrent p d row || matchesPrevious p d now row) = true := by
      rwa [← Bool.not_or, Bool.not_eq_true', Bool.not_eq_false] at hsecret
    split at h
    · rename_i hdisabled
      obtain ⟨rfl, rfl⟩ := Prod.mk.inj h
      refine .inl ⟨fun harrives => ?_, ⟨_, rfl⟩, rfl⟩
      rw [harrives.2.1] at hdisabled
      exact absurd hdisabled (by simp)
    · rename_i henabled
      have henabled : row.enabled = true := by
        rwa [Bool.not_eq_true', Bool.not_eq_false] at henabled
      split at h
      · rename_i hnone
        obtain ⟨rfl, rfl⟩ := Prod.mk.inj h
        refine .inl ⟨fun harrives => ?_, ⟨_, rfl⟩, rfl⟩
        have hsome := harrives.2.2
        rw [hnone] at hsome
        exact absurd hsome (by simp)
      · rename_i manifest definition hdefinition
        have harrives : Arrives p s d now row := ⟨hsecret, henabled, by rw [hdefinition]; rfl⟩
        dsimp only at h
        split at h
        · rename_i hcount
          obtain ⟨rfl, rfl⟩ := Prod.mk.inj h
          exact .inr (.inl ⟨manifest, definition, harrives, hdefinition, hcount, rfl, rfl⟩)
        · rename_i hcount
          obtain ⟨rfl, rfl⟩ := Prod.mk.inj h
          exact .inr (.inr ⟨manifest, definition, harrives, hdefinition, Nat.lt_of_not_le hcount,
            rfl, rfl⟩)

end

/-! ### The count of a minute -/

section
variable {rates : Rows RateRow.key} {handle h : Text} {minute m : ℕ} {s : WebhookState}

theorem rateCount_drop :
    rateCount (dropOtherMinutes rates handle minute) handle minute = rateCount rates handle minute := by
  unfold rateCount dropOtherMinutes
  rw [Rows.find?_filter]
  cases hfind : rates.find? (handle, minute) with
  | none => rfl
  | some row =>
    have hminute : row.minute = minute := congrArg Prod.snd (Rows.find?_eq_some.mp hfind).2
    simp [Option.filter, hminute]

theorem rateCount_drop_other (hne : h ≠ handle) :
    rateCount (dropOtherMinutes rates handle minute) h m = rateCount rates h m := by
  unfold rateCount dropOtherMinutes
  rw [Rows.find?_filter]
  cases hfind : rates.find? (h, m) with
  | none => rfl
  | some row =>
    have hhandle : row.handle = h := congrArg Prod.fst (Rows.find?_eq_some.mp hfind).2
    simp [Option.filter, hhandle, hne]

theorem find?_countDelivery (k : Text × ℕ) : (countDelivery rates handle minute).find? k =
    if (handle, minute) = k then
      some ((rates.find? k).elim ⟨handle, minute, 1⟩ fun row => { row with n := row.n + 1 })
    else rates.find? k :=
  Rows.find?_upsert rates ⟨handle, minute, 1⟩ _ _ k

theorem rateCount_count : rateCount (countDelivery rates handle minute) h m =
    rateCount rates h m + if (handle, minute) = (h, m) then 1 else 0 := by
  unfold rateCount
  rw [find?_countDelivery]
  by_cases hkey : (handle, minute) = (h, m)
  · rw [if_pos hkey, if_pos hkey]
    cases rates.find? (h, m) with
    | none => rfl
    | some row => rfl
  · rw [if_neg hkey, if_neg hkey]
    rfl

/-- A minute whose count was kept has the right one. -/
theorem Counted.of_kept (hcounted : Counted s) (hkept : CountKept s handle minute) :
    rateCount s.rates handle minute = s.admittedIn handle minute := by
  rcases hkept with hnone | hlatest
  · rw [hnone]
    unfold rateCount
    cases hfind : s.rates.find? (handle, minute) with
    | none => rfl
    | some row =>
      -- a row of the minute would count at least one
      obtain ⟨hmem, hkey⟩ := Rows.find?_eq_some.mp hfind
      obtain ⟨hn, hpos⟩ := hcounted.rows row hmem
      have hhandle : row.handle = handle := congrArg Prod.fst hkey
      have hminute : row.minute = minute := congrArg Prod.snd hkey
      rw [hhandle, hminute, hnone] at hn
      omega
  · exact hcounted.latest handle minute hlatest

/-- **A delivery that is turned away leaves the counts right.** -/
theorem Counted.turnedAway (hcounted : Counted s) (hkept : CountKept s handle minute) :
    Counted (turnedAway s handle minute) := by
  refine ⟨fun row hrow => hcounted.rows row (Rows.mem_filter.mp hrow).1, fun h m hlatest => ?_⟩
  show rateCount (dropOtherMinutes s.rates handle minute) h m = s.admittedIn h m
  have hlatest : ((handle, minute) :: s.arrivals).find? (fun a => a.1 = h) = some (h, m) := hlatest
  by_cases hh : handle = h
  · rw [List.find?_cons_of_pos (by simpa using hh)] at hlatest
    obtain ⟨rfl, rfl⟩ := Prod.mk.inj (Option.some.inj hlatest)
    rw [rateCount_drop]
    exact hcounted.of_kept hkept
  · rw [List.find?_cons_of_neg (by simpa using hh)] at hlatest
    rw [rateCount_drop_other (Ne.symm hh)]
    exact hcounted.latest h m hlatest

theorem count_admission : ((handle, minute) :: s.admissions).count (h, m) =
    s.admittedIn h m + if (handle, minute) = (h, m) then 1 else 0 := by
  rw [List.count_cons]
  unfold WebhookState.admittedIn
  by_cases hkey : (handle, minute) = (h, m)
  · rw [if_pos hkey, hkey, beq_self_eq_true, if_pos rfl]
  · rw [if_neg hkey, if_neg (by simpa using hkey)]

end

/-- **An admission leaves the counts right.** -/
theorem Counted.admitted {p : Platform} {s : WebhookState} {d : Delivery} {now : ℕ}
    {row : WebhookRow} (hcounted : Counted s) (hkept : CountKept s d.handle (now / 60000)) :
    Counted (admittedState p s d now row) := by
  have haway := hcounted.turnedAway hkept
  constructor
  · intro r hr
    have hfind : (admittedState p s d now row).rates.find? (r.handle, r.minute) = some r :=
      Rows.find?_eq_some.mpr ⟨hr, rfl⟩
    have hcount : rateCount (admittedState p s d now row).rates r.handle r.minute = r.n := by
      unfold rateCount
      rw [hfind]
      rfl
    have hstep : rateCount (admittedState p s d now row).rates r.handle r.minute = _ :=
      rateCount_count
    have hadmitted : (admittedState p s d now row).admittedIn r.handle r.minute = _ :=
      count_admission
    rw [hadmitted]
    by_cases hkey : (d.handle, now / 60000) = (r.handle, r.minute)
    · obtain ⟨hhandle, hminute⟩ := Prod.mk.inj hkey
      rw [if_pos hkey] at hstep ⊢
      rw [← hhandle, ← hminute, rateCount_drop, hcounted.of_kept hkept] at hstep
      rw [← hhandle, ← hminute] at hcount ⊢
      omega
    · rw [if_neg hkey] at hstep ⊢
      -- the row was there before
      have hold : (dropOtherMinutes s.rates d.handle (now / 60000)).find? (r.handle, r.minute) =
          some r := by
        have hcounts := @find?_countDelivery (dropOtherMinutes s.rates d.handle (now / 60000))
          d.handle (now / 60000) (r.handle, r.minute)
        rw [if_neg hkey] at hcounts
        exact hcounts.symm.trans hfind
      exact haway.rows r (Rows.find?_eq_some.mp hold).1
  · intro h m hlatest
    show rateCount (admittedState p s d now row).rates h m = _
    have hadmitted : (admittedState p s d now row).admittedIn h m = _ := count_admission
    have hcount : rateCount (admittedState p s d now row).rates h m = _ := rateCount_count
    have hbefore : rateCount (dropOtherMinutes s.rates d.handle (now / 60000)) h m =
        s.admittedIn h m := haway.latest h m hlatest
    rw [hadmitted, hcount, hbefore]

/-! ### What each piece keeps -/

/-- A delivery whose signature is about to be checked. -/
structure Checked (p : Platform) (d : Delivery) (adm : Admission) (v : WebhookVerification)
    (candidates : List Text) (message : Text) : Prop where
  admitted : Admitted p d adm
  size : d.request.bodyBytes ≤ p.webhookMaxBodyBytes
  fresh : Fresh p d adm
  verification : adm.definition.verification = some v
  candidates : candidates = parseSignatureHeader (d.request.header v.header) v
  message : signedMessage v d.request.body (timestampRaw d.request adm.definition)
    (replayFormat adm.definition) = some message

/-- What is known of a delivery in a frame. -/
def FrameOk (p : Platform) : Frame → Prop
  | .hashing d _ row => Hashed p row ∧ row.handle = d.handle
  | .readingBody d adm => Admitted p d adm
  | .checkingSignature d adm v candidates message => Checked p d adm v candidates message
  | .claiming x _ _ => Authorised p x
  | .accepting x _ _ => Authorised p x
  | _ => True

section
variable {p : Platform} {s s' : WebhookState} {d : Delivery} {adm : Admission} {x : Passed}

theorem reject_ok (status : ℕ) (reason : Text) (bodyBytes : Lib.Num) :
    FrameOk p (reject d status reason bodyBytes) := trivial

theorem afterAdmission_ok (h : Admitted p d adm) : FrameOk p (afterAdmission p d adm) := by
  unfold afterAdmission
  dsimp only
  split
  · exact reject_ok _ _ _
  · exact h

theorem afterSignature_ok (h : Authorised p x) : FrameOk p (afterSignature x) := by
  unfold afterSignature
  extract_lets definition body bodyBytes params
  split
  · exact reject_ok _ _ _
  · split
    · exact reject_ok _ _ _
    · exact h
    · exact h

theorem fresh_of_staleReason (h : staleReason p d.request adm.definition adm.now = none) :
    Fresh p d adm := by
  intro name hname
  unfold staleReason at h
  have hraw : timestampRaw d.request adm.definition = d.request.header name := by
    unfold timestampRaw
    rw [hname, Option.bind_some]
  rw [if_neg (by rw [hname]; exact Option.some_ne_none _), hraw] at h
  split at h
  · exact absurd h (by simp)
  rename_i timestamp hparse
  split at h
  · rename_i hwithin
    exact ⟨timestamp, hparse, hwithin⟩
  · exact absurd h (by simp)

theorem afterBody_ok (h : Admitted p d adm) : FrameOk p (afterBody p d adm) := by
  unfold afterBody
  extract_lets definition bodyBytes
  split
  · exact reject_ok _ _ _
  · rename_i hsize
    split
    · exact reject_ok _ _ _
    · rename_i hstale
      have hfresh := fresh_of_staleReason hstale
      split
      · rename_i hverification
        refine afterSignature_ok ⟨h, Nat.le_of_not_lt hsize, hfresh, fun v hv => ?_,
          fun v signed hv => ?_⟩
        · exact absurd (hverification.symm.trans hv) (by simp)
        · exact absurd (hverification.symm.trans hv) (by simp)
      · rename_i v hverification
        dsimp only
        split
        · exact reject_ok _ _ _
        · split
          · exact reject_ok _ _ _
          · rename_i message hmessage
            exact ⟨h, Nat.le_of_not_lt hsize, hfresh, hverification, rfl, hmessage⟩

/-- Where the timestamp is signed, the text whose time was checked is in the message. -/
theorem signedTimestamp_of_checked {v : WebhookVerification} {candidates : List Text}
    {message : Text} {signed : Option Signed} (h : Checked p d adm v candidates message)
    (hpayload : v.signedPayload ≠ .body) :
    ∃ text, SignedTimestamp p ⟨d, adm, signed⟩ message text := by
  -- a signed timestamp comes from the declared header, whose time was checked
  cases hname : timestampHeader adm.definition with
  | none =>
    have hraw : timestampRaw d.request adm.definition = none := by
      unfold timestampRaw
      rw [hname]
      rfl
    have hmessage := h.message
    rw [hraw] at hmessage
    unfold signedMessage at hmessage
    rw [if_neg hpayload] at hmessage
    exact absurd hmessage (by simp)
  | some name =>
    have hraw : timestampRaw d.request adm.definition = d.request.header name := by
      unfold timestampRaw
      rw [hname, Option.bind_some]
    obtain ⟨timestamp, hparse, hwithin⟩ := h.fresh name hname
    rw [← hraw] at hparse
    obtain ⟨raw, text, hheader, htext, htime, hsigned⟩ :=
      signedMessage_timestamp hpayload h.message hparse
    exact ⟨text, ⟨raw, hheader, htext⟩, ⟨timestamp, htime, hwithin⟩, hsigned⟩

theorem secretMatch_some {secrets : List SecretRow} {name packageName : Text} {row : SecretRow}
    (h : secretMatch secrets name packageName = some row) :
    row ∈ secrets ∧ row.name = name ∧ (row.scope = .package → row.packageName = packageName) := by
  unfold secretMatch at h
  have hrow := List.find?_some h
  rw [Bool.and_eq_true, Bool.or_eq_true, decide_eq_true_eq, decide_eq_true_eq,
    decide_eq_true_eq] at hrow
  exact ⟨List.mem_of_find?_eq_some h, hrow.1, fun hscope => hrow.2.resolve_left (· hscope)⟩

/-- The key of a signature is the value of a stored secret. -/
theorem secretValue_stored {v : WebhookVerification} {key : Text}
    (hstored : KeyStored s adm v)
    (h : secretValue s.secrets v.secretName adm.row.packageName = .ok (some key)) :
    ∃ row ∈ s.secrets, row.name = v.secretName ∧
      (row.scope = .package → row.packageName = adm.row.packageName) ∧ row.value = some key := by
  unfold secretValue at h
  cases hmatch : secretMatch s.secrets v.secretName adm.row.packageName with
  | none =>
    rw [hmatch] at h
    have hkey : inheritedText v.secretName = some key := Except.ok.inj h
    rcases hstored with hname | ⟨-, hsome⟩
    · unfold inheritedText at hkey
      rw [if_pos hname] at hkey
      exact absurd hkey (by simp)
    · rw [hmatch] at hsome
      exact absurd hsome (by simp)
  | some row =>
    rw [hmatch] at h
    dsimp only at h
    cases hvalue : row.value with
    | none =>
      rw [hvalue] at h
      exact absurd h (by simp)
    | some value =>
      rw [hvalue] at h
      have hname : v.secretName ≠ ("__proto__" : Text) := by
        rcases hstored with hname | ⟨hname, -⟩
        · rintro heq
          rw [heq] at hname
          exact hname (by decide)
        · exact hname
      have hget : ((Obj.empty : Obj Text).set v.secretName value).get? v.secretName = some value := by
        unfold Obj.set
        rw [if_neg hname, Obj.get?_define, if_pos rfl]
      have hkey := Except.ok.inj h
      rw [hget] at hkey
      have hkey : value = key := Option.some.inj hkey
      obtain ⟨hmem, hrowName, hpackage⟩ := secretMatch_some hmatch
      exact ⟨row, hmem, hrowName, hpackage, hkey ▸ hvalue⟩

/-- **A signature that matches authorises the delivery**, where its key is a stored secret. -/
theorem authorised_of_signature {v : WebhookVerification} {candidates : List Text}
    {message key : Text} (h : Checked p d adm v candidates message) (hstored : KeyStored s adm v)
    (hkey : secretValue s.secrets v.secretName adm.row.packageName = .ok (some key))
    (hmatches : signatureMatches candidates (p.hmac key message) v.encoding = true) :
    Authorised p ⟨d, adm, some ⟨message, key, s.secrets⟩⟩ := by
  have honly : ∀ w, adm.definition.verification = some w → w = v := fun w hw =>
    Option.some.inj (hw.symm.trans h.verification)
  refine ⟨h.admitted, h.size, h.fresh, fun w hw => ?_, fun w signed hw hpayload hsigned => ?_⟩
  · rw [honly w hw]
    obtain ⟨candidate, hmem, hcandidate⟩ := List.any_eq_true.mp hmatches
    rw [h.candidates] at hmem
    obtain ⟨raw, hraw, hinfix⟩ := parseSignatureHeader_within hmem
    exact ⟨_, rfl, secretValue_stored hstored hkey, ⟨raw, candidate, hraw, hinfix, hcandidate⟩,
      h.message⟩
  · rw [honly w hw] at hpayload
    rw [← Option.some.inj hsigned]
    exact signedTimestamp_of_checked h hpayload

/-- The writes of the delivery ledger. -/
theorem webhookDeliveryRecord_eq {i : Input} {handle : Text} {r : DeliveryRecord}
    (h : webhookDeliveryRecord s i handle r = some s') :
    ∃ deliveries, s' = { s with deliveries := deliveries } := by
  unfold webhookDeliveryRecord at h
  obtain ⟨deliveries, -, rfl⟩ := Option.map_eq_some_iff.mp h
  exact ⟨_, rfl⟩

/-- **Step lemma, admission.** -/
theorem admitPiece_ok {now : ℕ} {row : WebhookRow} (hs : Tables p s)
    (hrow : Hashed p row ∧ row.handle = d.handle)
    (hkept : Arrives p s d now row → CountKept s d.handle (now / 60000)) :
    Tables p (admitPiece p s d now row).1 ∧ FrameOk p (admitPiece p s d now row).2 ∧
      (admitPiece p s d now row).1.runs = s.runs := by
  unfold admitPiece
  cases hadmit : webhookAdmit p s d now row with
  | mk r s' =>
    rcases webhookAdmit_cases hadmit with ⟨-, ⟨refusal, rfl⟩, rfl⟩ |
      ⟨-, -, harrives, -, -, rfl, rfl⟩ |
      ⟨manifest, definition, harrives, hdefinition, hcount, rfl, rfl⟩
    · exact ⟨hs, trivial, rfl⟩
    · exact ⟨⟨hs.hashed, hs.counted.turnedAway (hkept harrives)⟩, trivial, rfl⟩
    · have hcounted := @Counted.admitted p s d now row hs.counted (hkept harrives)
      refine ⟨⟨hashed_admitWebhook hs.hashed, hcounted⟩, afterAdmission_ok ?_, rfl⟩
      rw [rateCount_drop, hs.counted.of_kept (hkept harrives)] at hcount
      obtain ⟨found, -, hfound⟩ := Option.bind_eq_some_iff.mp hdefinition
      obtain ⟨hook, hhook, heq⟩ := Option.map_eq_some_iff.mp hfound
      obtain ⟨rfl, rfl⟩ := Prod.mk.inj heq
      exact ⟨hrow.2, secretMatches_of_hashed hrow.1 harrives.1, harrives.2.1,
        ⟨List.mem_of_find?_eq_some hhook, by simpa using List.find?_some hhook⟩, hcount⟩

/-- **Step lemma, signature.** -/
theorem signaturePiece_ok {v : WebhookVerification} {candidates : List Text} {message : Text}
    (hs : Tables p s) (h : Checked p d adm v candidates message) (hstored : KeyStored s adm v)
    {out : Frame ⊕ Ret} (hpiece : signaturePiece p s d adm v candidates message = (s', out)) :
    Tables p s' ∧ (∀ f', out = .inl f' → FrameOk p f') ∧ s'.runs = s.runs := by
  unfold signaturePiece at hpiece
  split at hpiece
  · obtain ⟨rfl, rfl⟩ := Prod.mk.inj hpiece
    exact ⟨hs.congr rfl rfl rfl rfl, fun f' hf' => absurd hf' (by simp), rfl⟩
  · obtain ⟨rfl, rfl⟩ := Prod.mk.inj hpiece
    refine ⟨hs, fun f' hf' => ?_, rfl⟩
    rw [← Sum.inl.inj hf']
    exact reject_ok _ _ _
  · rename_i key hkey
    split at hpiece
    · rename_i hmatches
      obtain ⟨rfl, rfl⟩ := Prod.mk.inj hpiece
      refine ⟨hs, fun f' hf' => ?_, rfl⟩
      rw [← Sum.inl.inj hf']
      exact afterSignature_ok (authorised_of_signature h hstored hkey hmatches)
    · obtain ⟨rfl, rfl⟩ := Prod.mk.inj hpiece
      refine ⟨hs, fun f' hf' => ?_, rfl⟩
      rw [← Sum.inl.inj hf']
      exact reject_ok _ _ _

theorem afterClaim_ok {params : Option (List (Text × Json))} {a : Attempt} (h : Authorised p x) :
    FrameOk p (afterClaim x params a) := by
  unfold afterClaim
  extract_lets d ack replayed
  split
  · exact h
  · trivial
  · trivial
  · trivial

/-- **Step lemma, the start of a run.** -/
theorem acceptPiece_ok {params : Option (List (Text × Json))} {attempt : Option Attempt} {i : Input}
    {f : Frame} (hs : Tables p s) (hx : Authorised p x)
    (h : acceptPiece s x params attempt i = some (s', f)) :
    Tables p s' ∧ FrameOk p f ∧ ∀ r ∈ s'.runs, r ∈ s.runs ∨ Authorised p r.passed := by
  unfold acceptPiece at h
  extract_lets ack record at h
  obtain ⟨s₁, hrecord, heq⟩ := Option.map_eq_some_iff.mp h
  obtain ⟨deliveries, rfl⟩ := webhookDeliveryRecord_eq hrecord
  obtain ⟨rfl, rfl⟩ := Prod.mk.inj heq
  have hruns : ∀ r ∈ (⟨x, attempt, runParams x params i.id⟩ :: s.runs : List RunStart),
      r ∈ s.runs ∨ Authorised p r.passed := by
    intro r hr
    rcases List.mem_cons.mp hr with rfl | hold
    · exact .inr hx
    · exact .inl hold
  split
  · exact ⟨hs.congr rfl rfl rfl rfl, trivial, hruns⟩
  · exact ⟨hs.congr rfl rfl rfl rfl, trivial, hruns⟩

theorem conclude_eq {attempt : Option Attempt} {deliveryId : Text} {outcome : RunEnd} :
    ∃ answers, conclude s x attempt deliveryId outcome = { s with answers := answers } := by
  unfold conclude
  split
  · exact ⟨s.answers, rfl⟩
  · exact ⟨_, rfl⟩

/-- **Step lemma, the end of a run.** -/
theorem finishPiece_ok {attempt : Option Attempt} {deliveryId : Text} {outcome : RunEnd} {now : ℕ}
    {out : Frame ⊕ Ret} (hs : Tables p s)
    (h : finishPiece s x attempt deliveryId outcome now = (s', out)) :
    Tables p s' ∧ (∀ f', out = .inl f' → FrameOk p f') ∧ s'.runs = s.runs := by
  unfold finishPiece at h
  extract_lets s₁ at h
  have hledger : ∃ deliveries, s₁ = { s with deliveries := deliveries } := by
    cases outcome with
    | threw message => exact ⟨_, rfl⟩
    | finished ok runId result error => exact ⟨_, rfl⟩
  obtain ⟨deliveries, hs₁⟩ := hledger
  split at h
  · obtain ⟨answers, hanswers⟩ := @conclude_eq s₁ x none deliveryId outcome
    rw [hanswers, hs₁] at h
    obtain ⟨rfl, rfl⟩ := Prod.mk.inj h
    exact ⟨hs.congr rfl rfl rfl rfl, fun f' hf' => absurd hf' (by simp), rfl⟩
  · rw [hs₁] at h
    obtain ⟨rfl, rfl⟩ := Prod.mk.inj h
    refine ⟨hs.congr rfl rfl rfl rfl, fun f' hf' => ?_, rfl⟩
    rw [← Sum.inl.inj hf']
    trivial

theorem finishClaimPiece_eq {attempt : Option Attempt} {deliveryId : Text} {outcome : RunEnd} :
    ∃ idempotency answers, finishClaimPiece s x attempt deliveryId outcome =
      { s with idempotency := idempotency, answers := answers } := by
  unfold finishClaimPiece
  extract_lets s₁
  have hledger : ∃ idempotency, s₁ = { s with idempotency := idempotency } := by
    cases attempt with
    | none => exact ⟨s.idempotency, rfl⟩
    | some a =>
      cases outcome with
      | threw message => exact ⟨_, rfl⟩
      | finished ok runId result error => exact ⟨_, rfl⟩
  obtain ⟨idempotency, hs₁⟩ := hledger
  obtain ⟨answers, hanswers⟩ := @conclude_eq s₁ x attempt deliveryId outcome
  exact ⟨idempotency, answers, by rw [hanswers, hs₁]⟩

/-- **Step lemma, the start of a call.** -/
theorem startPiece_ok {i : Input} {call : Call} {out : Frame ⊕ Ret} (hs : Tables p s)
    (h : startPiece p s i call = (s', out)) :
    Tables p s' ∧ (∀ f', out = .inl f' → FrameOk p f') ∧ s'.runs = s.runs := by
  have hnone : ∀ (r : Ret) f', (.inr r : Frame ⊕ Ret) = .inl f' → FrameOk p f' :=
    fun r f' hf' => absurd hf' (by simp)
  cases call with
  | deliver request =>
    unfold startPiece at h
    dsimp only at h
    split at h
    · obtain ⟨rfl, rfl⟩ := Prod.mk.inj h
      exact ⟨hs.congr rfl rfl rfl rfl, hnone _, rfl⟩
    · obtain ⟨rfl, rfl⟩ := Prod.mk.inj h
      refine ⟨hs, fun f' hf' => ?_, rfl⟩
      rw [← Sum.inl.inj hf']
      trivial
  | webhookRotate handle =>
    unfold startPiece at h
    dsimp only at h
    split at h
    · obtain ⟨rfl, rfl⟩ := Prod.mk.inj h
      exact ⟨hs, hnone _, rfl⟩
    · obtain ⟨rfl, rfl⟩ := Prod.mk.inj h
      refine ⟨hs, fun f' hf' => ?_, rfl⟩
      rw [← Sum.inl.inj hf']
      trivial
  | webhookSetEnabled handle enabled =>
    unfold startPiece at h
    dsimp only at h
    split at h
    · obtain ⟨rfl, rfl⟩ := Prod.mk.inj h
      exact ⟨hs, hnone _, rfl⟩
    · obtain ⟨rfl, rfl⟩ := Prod.mk.inj h
      refine ⟨⟨fun row hrow => ?_, hs.counted.rows, hs.counted.latest⟩, hnone _, rfl⟩
      refine hashed_updateWebhook ?_ hs.hashed ?_ row hrow
      · exact fun _ => rfl
      · exact fun old hold => hold
  | packageWrite name manifest =>
    obtain ⟨rfl, rfl⟩ := Prod.mk.inj h
    exact ⟨hs.congr rfl rfl rfl rfl, hnone _, rfl⟩
  | secretWrite secrets =>
    obtain ⟨rfl, rfl⟩ := Prod.mk.inj h
    exact ⟨hs.congr rfl rfl rfl rfl, hnone _, rfl⟩

theorem rotate_ok {handle : Text} {i : Input} (hs : Tables p s) : Tables p (rotate p s handle i) := by
  refine ⟨fun row hrow => ?_, hs.counted.rows, hs.counted.latest⟩
  refine hashed_updateWebhook ?_ hs.hashed ?_ row hrow
  · exact fun _ => rfl
  · exact fun old hold => ⟨rfl, congrArg some hold.1⟩

/-- **Step lemma.** A sound piece keeps what the checks count on, hands an authorised delivery on as
    one, and starts the runs of authorised deliveries only. -/
theorem piece_ok {f : Frame} {i : Input} {out : Frame ⊕ Ret} (hs : Tables p s) (hf : FrameOk p f)
    (hsound : FrameSound p s f) (h : piece p s f i = some (s', out)) :
    Tables p s' ∧ (∀ f', out = .inl f' → FrameOk p f') ∧
      ∀ r ∈ s'.runs, r ∈ s.runs ∨ Authorised p r.passed := by
  have hframe : ∀ f₁ f', FrameOk p f₁ → (.inl f₁ : Frame ⊕ Ret) = .inl f' → FrameOk p f' :=
    fun f₁ f' hok heq => Sum.inl.inj heq ▸ hok
  have hnone : ∀ (r : Ret) f', (.inr r : Frame ⊕ Ret) = .inl f' → FrameOk p f' :=
    fun r f' hf' => absurd hf' (by simp)
  have hsame : ∀ runs : List RunStart, runs = s.runs → ∀ r ∈ runs,
      r ∈ s.runs ∨ Authorised p r.passed := fun runs heq r hr => .inl (heq ▸ hr)
  cases f with
  | start call =>
    obtain ⟨htables, hout, hruns⟩ := startPiece_ok hs (Option.some.inj h)
    exact ⟨htables, hout, hsame _ hruns⟩
  | lookingUp d =>
    unfold piece at h
    dsimp only at h
    split at h
    · obtain ⟨rfl, rfl⟩ := Prod.mk.inj (Option.some.inj h)
      exact ⟨hs, fun f' => hframe _ f' trivial, hsame _ rfl⟩
    · obtain ⟨rfl, rfl⟩ := Prod.mk.inj (Option.some.inj h)
      exact ⟨hs.congr rfl rfl rfl rfl, hnone _, hsame _ rfl⟩
  | admitting d now =>
    unfold piece at h
    dsimp only at h
    split at h
    · obtain ⟨rfl, rfl⟩ := Prod.mk.inj (Option.some.inj h)
      exact ⟨hs.congr rfl rfl rfl rfl, hnone _, hsame _ rfl⟩
    · rename_i row hrow
      obtain ⟨rfl, rfl⟩ := Prod.mk.inj (Option.some.inj h)
      obtain ⟨hmem, hhandle⟩ := Rows.find?_eq_some.mp hrow
      exact ⟨hs, fun f' => hframe _ f' ⟨hs.hashed row hmem, hhandle⟩, hsame _ rfl⟩
  | hashing d now row =>
    obtain ⟨htables, hok, hruns⟩ := admitPiece_ok hs hf hsound
    obtain ⟨rfl, rfl⟩ := Prod.mk.inj (Option.some.inj h)
    exact ⟨htables, fun f' => hframe _ f' hok, hsame _ hruns⟩
  | readingBody d adm =>
    obtain ⟨rfl, rfl⟩ := Prod.mk.inj (Option.some.inj h)
    exact ⟨hs, fun f' => hframe _ f' (afterBody_ok hf), hsame _ rfl⟩
  | checkingSignature d adm v candidates message =>
    obtain ⟨htables, hout, hruns⟩ := signaturePiece_ok hs hf hsound (Option.some.inj h)
    exact ⟨htables, hout, hsame _ hruns⟩
  | claiming x params id =>
    obtain ⟨rfl, rfl⟩ := Prod.mk.inj (Option.some.inj h)
    exact ⟨hs.congr rfl rfl rfl rfl, fun f' => hframe _ f' (afterClaim_ok hf), hsame _ rfl⟩
  | accepting x params attempt =>
    obtain ⟨⟨s₁, f₁⟩, haccept, heq⟩ := Option.map_eq_some_iff.mp h
    obtain ⟨rfl, rfl⟩ := Prod.mk.inj heq
    obtain ⟨htables, hok, hruns⟩ := acceptPiece_ok hs hf haccept
    exact ⟨htables, fun f' => hframe _ f' hok, hruns⟩
  | running x attempt deliveryId =>
    obtain ⟨rfl, rfl⟩ := Prod.mk.inj (Option.some.inj h)
    exact ⟨hs, fun f' => hframe _ f' trivial, hsame _ rfl⟩
  | finishing x attempt deliveryId outcome =>
    obtain ⟨htables, hout, hruns⟩ := finishPiece_ok hs (Option.some.inj h)
    exact ⟨htables, hout, hsame _ hruns⟩
  | finishingClaim x attempt deliveryId outcome =>
    obtain ⟨rfl, rfl⟩ := Prod.mk.inj (Option.some.inj h)
    obtain ⟨idempotency, answers, heq⟩ := @finishClaimPiece_eq s x attempt deliveryId outcome
    rw [heq]
    exact ⟨hs.congr rfl rfl rfl rfl, hnone _, hsame _ rfl⟩
  | recording d record attempt response =>
    obtain ⟨s₁, hrecord, heq⟩ := Option.map_eq_some_iff.mp h
    obtain ⟨deliveries, rfl⟩ := webhookDeliveryRecord_eq hrecord
    obtain ⟨rfl, rfl⟩ := Prod.mk.inj heq
    exact ⟨hs.congr rfl rfl rfl rfl, hnone _, hsame _ rfl⟩
  | rotating handle =>
    obtain ⟨rfl, rfl⟩ := Prod.mk.inj (Option.some.inj h)
    exact ⟨rotate_ok hs, hnone _, hsame _ rfl⟩

/-! ### Runs -/

/-- What holds in every state that sound steps reach. -/
structure Inv (p : Platform) (g : Coop.Config (webhooks p)) : Prop where
  tables : Tables p g.shared
  frames : ∀ t c f, g.pool t = some (c, f) → FrameOk p f
  runs : ∀ r ∈ g.shared.runs, Authorised p r.passed

theorem Inv.step {g g' : Coop.Config (webhooks p)} {e : Coop.Event (webhooks p)} (hinv : Inv p g)
    (hsound : Sound p g e) (h : Coop.step g e = some g') : Inv p g' := by
  rcases Coop.step_ran h with ⟨t, c, rfl, hfree, rfl⟩ | ⟨t, i, c, f, out, rfl, hran⟩
  · refine ⟨hinv.tables, fun u c' f hu => ?_, hinv.runs⟩
    rcases Coop.pool_update_cases hu with ⟨-, heq⟩ | ⟨-, hold⟩
    · obtain ⟨-, rfl⟩ := Prod.mk.inj (Option.some.inj heq)
      trivial
    · exact hinv.frames u c' f hold
  · obtain ⟨htables, hout, hruns⟩ := piece_ok hinv.tables (hinv.frames t c f hran.before)
      (hsound t i c f rfl hran.before) hran.runs
    refine ⟨htables, fun u c' f' hu => ?_, fun r hr => ?_⟩
    · rcases hran.pool u c' f' hu with ⟨-, hold⟩ | ⟨-, -, heq⟩
      · exact hinv.frames u c' f' hold
      · exact hout f' heq
    · rcases hruns r hr with hold | hnew
      · exact hinv.runs r hold
      · exact hnew

end

theorem minted_tables (p : Platform) (rows : Rows WebhookRow.handle)
    (manifests : Text → Option PackageManifest) (secrets : List SecretRow) :
    Tables p (minted p rows manifests secrets) := by
  refine ⟨fun row hrow => ?_, ⟨fun row hrow => absurd hrow List.not_mem_nil, fun _ _ hlatest => ?_⟩⟩
  · unfold minted at hrow
    obtain ⟨old, -, heq⟩ := List.mem_map.mp hrow
    rw [← heq]
    exact ⟨rfl, rfl⟩
  · exact absurd hlatest (by simp [minted])

/-- Two runs with one signed message: the timestamps that were checked are one text exactly if the
    bodies are one text, which they are where the timestamps count in digits. -/
def OneTimestamp (p : Platform) (x y : Passed) : Prop :=
  ∀ message text text', SignedTimestamp p x message text → SignedTimestamp p y message text' →
    (text = text' ↔ x.delivery.request.body = y.delivery.request.body) ∧
    (replayFormat x.admission.definition ≠ .iso → replayFormat y.admission.definition ≠ .iso →
      text = text')

theorem oneTimestamp (p : Platform) (x y : Passed) : OneTimestamp p x y := by
  intro message text text' hx hy
  have hsplit : text ++ '.' :: x.delivery.request.body = text' ++ '.' :: y.delivery.request.body :=
    hx.signed.symm.trans hy.signed
  refine ⟨⟨?_, ?_⟩, fun hisoX hisoY => ?_⟩
  · rintro rfl
    exact (List.cons.inj (List.append_cancel_left hsplit)).2
  · intro hbody
    rw [hbody] at hsplit
    exact List.append_cancel_right hsplit
  · obtain ⟨_, htimeX, -⟩ := hx.checked
    obtain ⟨_, htimeY, -⟩ := hy.checked
    have hbare : ∀ format : TimestampFormat, format ≠ .iso → format.bare ≠ .iso := by
      intro format hformat
      cases format <;> first | exact hformat | decide
    exact (signed_text_unique (timeOf_digits (hbare _ hisoX) htimeX)
      (timeOf_digits (hbare _ hisoY) htimeY) hsplit).1

/-- **A webhook run is always authorised.** In every run of sound steps, whatever the interleaving,
    each run that was started is of an authorised delivery; and a message that was signed once
    passes with its own timestamp only, where the body is the same or the timestamps are digits. -/
theorem runs_authorised {p : Platform} {rows : Rows WebhookRow.handle}
    {manifests : Text → Option PackageManifest} {secrets : List SecretRow}
    {g : Coop.Config (webhooks p)}
    (h : Reaches Coop.step (Sound p) (Coop.idle (minted p rows manifests secrets)) g) :
    (∀ r ∈ g.shared.runs, Authorised p r.passed) ∧
      ∀ r ∈ g.shared.runs, ∀ r' ∈ g.shared.runs, OneTimestamp p r.passed r'.passed := by
  have hinv : Inv p g := by
    refine h.invariant (Inv p) (fun s e s' hs hg hstep => hs.step hg hstep) ?_
    refine ⟨minted_tables p rows manifests secrets, fun t c f hpool => ?_, fun r hr => ?_⟩
    · exact absurd hpool (by simp [Coop.idle])
    · exact absurd hr List.not_mem_nil
  exact ⟨hinv.runs, fun r _ r' _ => oneTimestamp p r.passed r'.passed⟩

/-! ### Examples -/

/-- A user with one webhook: digests and times are those of the texts the examples use. -/
def samplePlatform : Platform where
  sha256Hex text :=
    if text = "url-secret" then "bdde0fdf9960db59eaf5a9aa1466f6a8666bf20ecd42b8a0869c23022ca61a97"
    else []
  hmac key message :=
    if key = "topsecret" ∧ message = "2026-01-01T00:00:00.999Z.hello" then
      [36, 157, 254, 200, 103, 67, 99, 87, 255, 224, 88, 72, 143, 94, 219, 158, 165, 175, 46, 164, 223,
        207, 208, 38, 140, 28, 255, 252, 52, 144, 198, 114]
    else if key = "function Object() \x7b [native code] \x7d" ∧ message = "\x7b\x7d" then
      [40, 84, 12, 220, 65, 253, 98, 219, 172, 109, 134, 51, 117, 139, 54, 239, 27, 54, 219, 10, 1,
        128, 92, 8, 235, 78, 35, 128, 100, 160, 10, 65]
    else []
  dateParse text :=
    if text = "2026-01-01T00:00:00" then some 1767225600000
    else if text = "2026-01-01T00:00:00.999Z" then some 1767225600999
    else none
  decodeURIComponent text := some text
  webhookMaxBodyBytes := 1048576

def sampleDefinition (rateLimitPerMinute : ℕ) (verification : Option WebhookVerification)
    (replay : Option WebhookReplay) : WebhookDefinition where
  name := "push"
  exportName := "hook"
  entry := .path "hook.js"
  responseMode := .ack
  inputMode := .request
  rateLimitPerMinute := rateLimitPerMinute
  verification := verification
  replay := replay
  description := none

def sampleManifest (definition : WebhookDefinition) : PackageManifest where
  name := "mirror"
  version := "1.0.0"
  description := []
  exports := Obj.empty
  jobs := Obj.empty
  webhooks := [definition]
  subscriptions := []
  secretProvider := none
  app := none
  dependencies := Obj.empty
  hidden := false
  keywords := []

def sampleRows : Rows WebhookRow.handle :=
  ⟨[⟨"whk_1", "mirror", "push", [], "url-secret", none, none, none, true, 0, none, none, 0⟩],
    List.nodup_singleton _⟩

def sampleIdle (definition : WebhookDefinition) (secrets : List SecretRow) :
    Coop.Config (webhooks samplePlatform) :=
  Coop.idle (minted samplePlatform sampleRows
    (fun name => if name = "mirror" then some (sampleManifest definition) else none) secrets)

def sampleRequest (headers : List (Text × Text)) (body : Text) : Request where
  method := "POST"
  origin := "https://kody.example"
  segments := ["webhooks", "user", "whk_1", "url-secret"]
  search := []
  headers := headers
  body := body

/-- One delivery on its own thread, up to the start of its run. -/
def deliveryRun (t now pieces : ℕ) (request : Request) :
    List (Coop.Event (webhooks samplePlatform)) :=
  .call t (.deliver request) ::
    List.replicate pieces (.resume t ⟨now, true, "whd_" ++ natText t, [], .threw []⟩)

/-- `Sound` as a check, for runs whose handle is always admitted. -/
def soundCheck (g : Coop.Config (webhooks samplePlatform)) :
    Coop.Event (webhooks samplePlatform) → Bool
  | .call _ _ => true
  | .resume t _ =>
    match g.pool t with
    | some (_, .hashing d now _) => decide (g.shared.admittedIn d.handle (now / 60000) = 0) ||
        decide (g.shared.arrivals.find? (fun a => a.1 = d.handle) = some (d.handle, now / 60000))
    | some (_, .checkingSignature _ _ v _ _) => decide (v.secretName ∉ objectPrototype)
    | _ => true

theorem sound_of_check {g : Coop.Config (webhooks samplePlatform)}
    {e : Coop.Event (webhooks samplePlatform)} (h : soundCheck g e = true) :
    Sound samplePlatform g e := by
  rintro t i c f rfl hpool
  unfold soundCheck at h
  simp only [hpool] at h
  cases f with
  | hashing d now row =>
    rw [Bool.or_eq_true, decide_eq_true_eq, decide_eq_true_eq] at h
    exact fun _ => h
  | checkingSignature d adm v candidates message => exact .inl (of_decide_eq_true h)
  | _ => trivial

/-- The provider signs its time, written in ISO 8601, and the body. -/
def isoDefinition : WebhookDefinition := sampleDefinition 60
  (some ⟨"x-signature", "hook-key", .hex, none, .timestampBody⟩)
  (some ⟨some "x-time", some (.str "iso"), some 300, none⟩)

def isoSecrets : List SecretRow := [⟨"hook-key", .user, [], some "topsecret"⟩]

def isoDelivery (t : ℕ) (time body : Text) : List (Coop.Event (webhooks samplePlatform)) :=
  deliveryRun t 1767225600000 7 (sampleRequest [("x-time", time), ("x-signature",
    "249dfec867436357ffe058488f5edb9ea5af2ea4dfcfd0268c1cfffc3490c672")] body)

theorem runs_authorised_isoDelivery : ∃ g,
    execGuarded Coop.step soundCheck (sampleIdle isoDefinition isoSecrets)
      (isoDelivery 0 "2026-01-01T00:00:00.999Z" "hello") = some g ∧ g.shared.runs.length = 1 ∧
    ∀ r ∈ g.shared.runs, Authorised samplePlatform r.passed := by
  have hrun : (execGuarded Coop.step soundCheck (sampleIdle isoDefinition isoSecrets)
      (isoDelivery 0 "2026-01-01T00:00:00.999Z" "hello")).map (fun g => g.shared.runs.length) =
      some 1 := by
    decide +kernel
  obtain ⟨g, hg, hseen⟩ := Option.map_eq_some_iff.mp hrun
  have hreaches := reaches_of_execGuarded (fun _ _ => sound_of_check) hg
  exact ⟨g, hg, hseen, (runs_authorised hreaches).1⟩

/-- The signature is keyed with a secret that is not stored. -/
def inheritedVerification : WebhookVerification where
  header := "x-signature"
  secretName := "constructor"
  encoding := .hex
  signaturePrefix := none
  signedPayload := .body

def inheritedRun : List (Coop.Event (webhooks samplePlatform)) :=
  deliveryRun 0 1767225600000 7 (sampleRequest [("x-signature",
    "28540cdc41fd62dbac6d8633758b36ef1b36db0a01805c08eb4e238064a00a41")] "\x7b\x7d")

/-- **A known key.**  The webhook verifies signatures with the secret `constructor`, which is not
    stored; a request signed with the text of a built-in function is run. -/
theorem inheritedKey : ∃ g,
    @Reaches _ _ Coop.step (fun _ _ => True)
      (sampleIdle (sampleDefinition 60 (some inheritedVerification) none) []) g ∧
    ∃ r ∈ g.shared.runs, ¬ Authorised samplePlatform r.passed := by
  have hrun : (exec Coop.step (sampleIdle (sampleDefinition 60 (some inheritedVerification) none) [])
      inheritedRun).map (fun g => g.shared.runs.map fun r =>
        (r.passed.signed.map fun signed => signed.secrets.length,
          r.passed.admission.definition.verification)) =
      some [(some 0, some inheritedVerification)] := by
    decide +kernel
  obtain ⟨g, hg, hseen⟩ := Option.map_eq_some_iff.mp hrun
  obtain ⟨r, hr, heq⟩ := List.mem_map.mp (hseen ▸ List.mem_singleton_self _)
  obtain ⟨hsecrets, hverification⟩ := Prod.mk.inj heq
  refine ⟨g, reaches_of_exec hg, r, hr, fun h => ?_⟩
  obtain ⟨signed, hsigned, hholds⟩ := h.signature _ hverification
  obtain ⟨row, hrow, -⟩ := hholds.stored
  rw [hsigned] at hsecrets
  rw [List.length_eq_zero_iff.mp (Option.some.inj hsecrets)] at hrow
  exact absurd hrow List.not_mem_nil

end KodyCelld.Webhooks
