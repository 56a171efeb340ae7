import KodyCelld.Auth.AccountStore

namespace KodyCelld.Email

open KodyCelld.Lib
open KodyCelld.Auth.AccountStore (isEmail)

/-!
# Email destinations (`cells/user-cell.ts`)

The addresses that a user may send to.  An address is added unverified, with the digest of a code
that is emailed to it, or verified at once; one verified address may be the default.

* `begin`, `verify`, `setDefault`, `remove` — the methods of the cell;
* `issued`, `Entitled` — what a history of completed calls says about an address;
* `destInv_step` — one call keeps the table in line with its history;
* `destinations_ok` — so over every history at most one address is the default, it is verified, and
  each verified address is entitled to it.

Times are milliseconds; the columns hold them as ISO texts.
-/

structure EmailDestination where
  address : Text
  verified : Bool
  codeHash : Option Text
  codeExpiresAt : Option ℕ
  isDefault : Bool
  createdAt : ℕ
  verifiedAt : Option ℕ
  deriving DecidableEq, Repr

structure EmailDestinationRecord where
  address : Text
  verified : Bool
  isDefault : Bool
  createdAt : ℕ
  verifiedAt : Option ℕ
  codeExpiresAt : Option ℕ
  deriving DecidableEq, Repr

def rowToDestination (row : EmailDestination) : EmailDestinationRecord :=
  { address := row.address, verified := row.verified, isDefault := row.isDefault
    createdAt := row.createdAt, verifiedAt := row.verifiedAt
    codeExpiresAt := if row.verified then none else row.codeExpiresAt }

abbrev Destinations := Rows EmailDestination.address

def emailDestinationCodeTtlMs : ℕ := 30 * 60 * 1000

/-- `String(digits % 1_000_000).padStart(6, '0')` -/
def destinationCode (digits : ℕ) : Text :=
  let text := natText (digits % 1000000)
  List.replicate (6 - text.length) '0' ++ text

/-! ### The methods -/

/-- What an `UPDATE` sets in a row: never its key. -/
structure DestinationChange where
  set : EmailDestination → EmailDestination
  address : ∀ row, (set row).address = row.address

/-- `SET verified = 1, verified_at = COALESCE(verified_at, ?), code_hash = NULL, code_expires_at = NULL` -/
def markVerified (now : ℕ) : DestinationChange where
  set row :=
    { row with
      verified := true, verifiedAt := row.verifiedAt.orElse fun _ => some now
      codeHash := none, codeExpiresAt := none }
  address _ := rfl

/-- `SET code_hash = ?, code_expires_at = ?` -/
def setCode (codeHash : Text) (expiresAt : ℕ) : DestinationChange where
  set row := { row with codeHash := some codeHash, codeExpiresAt := some expiresAt }
  address _ := rfl

/-- `SET verified = 1, verified_at = ?, code_hash = NULL, code_expires_at = NULL, is_default = ?`
    of one address. -/
def confirm (target : Text) (now : ℕ) (isDefault : Bool) : DestinationChange where
  set row :=
    if row.address = target then
      { row with
        verified := true, verifiedAt := some now, codeHash := none, codeExpiresAt := none
        isDefault := isDefault }
    else row
  address row := by
    split
    · rfl
    · rfl

/-- `SET is_default = CASE WHEN address = ? THEN 1 ELSE 0 END` -/
def chooseDefault (target : Text) : DestinationChange where
  set row := { row with isDefault := decide (row.address = target) }
  address _ := rfl

/-- The row that is inserted for a verified address. -/
def verifiedRow (address : Text) (now : ℕ) (isDefault : Bool) : EmailDestination :=
  { address := address, verified := true, codeHash := none, codeExpiresAt := none
    isDefault := isDefault, createdAt := now, verifiedAt := some now }

/-- The row that is inserted for an address with a code. -/
def pendingRow (address codeHash : Text) (expiresAt now : ℕ) : EmailDestination :=
  { address := address, verified := false, codeHash := some codeHash, codeExpiresAt := some expiresAt
    isDefault := false, createdAt := now, verifiedAt := none }

/-- What a call returns. -/
inductive DestinationResult where
  | begun (destination : Option EmailDestinationRecord) (code : Option Text)
  | destination (record : Option EmailDestinationRecord)
  | removed (deleted : Bool)
  deriving DecidableEq, Repr

section
variable (toLowerCase sha256Hex : Text → Text)

def normalizeEmailAddress (address : Text) : Text := toLowerCase (trim address)

/-- The digest that is stored for a code. -/
def codeDigest (address code : Text) : Text := sha256Hex (address ++ ':' :: code)

/-- `(await this.emailDestinationList()).find((d) => d.address === address)` -/
def listed (address : Text) (table : Destinations) : Option EmailDestinationRecord :=
  (table.find? address).map rowToDestination

/-- `emailDestinationBegin`; the clock is read for the row and again for the expiry of the code. -/
def emailDestinationBegin (input : Text) (preVerified : Bool) (digits now issuedAt : ℕ)
    (table : Destinations) : Except Thrown DestinationResult × Destinations :=
  let address := normalizeEmailAddress toLowerCase input
  if !isEmail address || decide (254 < utf16Length address) then
    (.error (.kody "invalid_email_address" ("\"" ++ input ++ "\" is not a valid email address.")),
      table)
  else if (table.find? address).any EmailDestination.verified || preVerified then
    let table := table.upsert (verifiedRow address now table.rows.isEmpty) (markVerified now).set
      (markVerified now).address
    (.ok (.begun (listed address table) none), table)
  else
    let code := destinationCode digits
    let expiresAt := issuedAt + emailDestinationCodeTtlMs
    let digest := codeDigest sha256Hex address code
    let table := table.upsert (pendingRow address digest expiresAt now) (setCode digest expiresAt).set
      (setCode digest expiresAt).address
    (.ok (.begun (listed address table) (some code)), table)

/-- Whether the code that was provided is the one of the row, and in time. -/
def codeAccepted (address code : Text) (checkedAt : ℕ) (row : EmailDestination) : Bool :=
  (row.codeExpiresAt.any fun expiresAt => decide (checkedAt ≤ expiresAt)) &&
    row.codeHash.any fun hash => decide (codeDigest sha256Hex address (trim code) = hash)

def emailDestinationVerify (input code : Text) (checkedAt now : ℕ) (table : Destinations) :
    Except Thrown DestinationResult × Destinations :=
  let address := normalizeEmailAddress toLowerCase input
  match table.find? address with
  | none =>
    (.error (.kody "email_destination_not_found"
      ("No pending destination \"" ++ address ++ "\".") 404), table)
  | some row =>
    if row.verified then (.ok (.destination (listed address table)), table)
    else if codeAccepted sha256Hex address code checkedAt row then
      let change := confirm address now (!table.rows.any EmailDestination.isDefault)
      let table := table.map change.set change.address
      (.ok (.destination (listed address table)), table)
    else
      (.error (.kody "email_verification_failed" "The verification code is wrong or expired."), table)

def emailDestinationSetDefault (input : Text) (table : Destinations) :
    Except Thrown DestinationResult × Destinations :=
  let normalized := normalizeEmailAddress toLowerCase input
  -- `emailDestinationIsVerified` normalises once more
  if ((table.find? (normalizeEmailAddress toLowerCase normalized)).any EmailDestination.verified) then
    let table := table.map (chooseDefault normalized).set (chooseDefault normalized).address
    (.ok (.destination (listed normalized table)), table)
  else
    (.error (.kody "email_destination_unverified"
      ("\"" ++ normalized ++ "\" is not a verified destination.") 404), table)

def emailDestinationRemove (input : Text) (table : Destinations) :
    Except Thrown DestinationResult × Destinations :=
  let address := normalizeEmailAddress toLowerCase input
  (.ok (.removed (table.find? address).isSome), table.filter fun row => decide (row.address ≠ address))

end

/-! ### Histories of completed calls -/

inductive DestinationCall where
  | begin (address : Text) (preVerified : Bool) (digits now issuedAt : ℕ)
  | verify (address code : Text) (checkedAt now : ℕ)
  | setDefault (address : Text)
  | remove (address : Text)
  deriving DecidableEq, Repr

/-- A call that returned or threw. -/
structure Done where
  call : DestinationCall
  result : Except Thrown DestinationResult

section
variable (toLowerCase sha256Hex : Text → Text)

def destinationCall (call : DestinationCall) (table : Destinations) :
    Except Thrown DestinationResult × Destinations :=
  match call with
  | .begin address preVerified digits now issuedAt =>
    emailDestinationBegin toLowerCase sha256Hex address preVerified digits now issuedAt table
  | .verify address code checkedAt now =>
    emailDestinationVerify toLowerCase sha256Hex address code checkedAt now table
  | .setDefault address => emailDestinationSetDefault toLowerCase address table
  | .remove address => emailDestinationRemove toLowerCase address table

/-- The table with the calls that led to it, the latest first. -/
structure DestState where
  table : Destinations
  history : List Done

def DestState.empty : DestState := ⟨⟨[], List.nodup_nil⟩, []⟩

def destStep (s : DestState) (call : DestinationCall) : DestState :=
  let outcome := destinationCall toLowerCase sha256Hex call s.table
  ⟨outcome.2, ⟨call, outcome.1⟩ :: s.history⟩

/-- The state after a sequence of calls. -/
def destAfter (calls : List DestinationCall) (s : DestState) : DestState :=
  calls.foldl (destStep toLowerCase sha256Hex) s

/-- The code last issued for an address since it was last removed, with its expiry. -/
def issued (address : Text) : List Done → Option (Text × ℕ)
  | [] => none
  | d :: history =>
    match d.call, d.result with
    | .begin input _ _ _ issuedAt, .ok (.begun _ (some code)) =>
      if normalizeEmailAddress toLowerCase input = address then
        some (code, issuedAt + emailDestinationCodeTtlMs)
      else issued address history
    | .remove input, _ =>
      if normalizeEmailAddress toLowerCase input = address then none else issued address history
    | _, _ => issued address history

/-- **An address may be verified**: since it was last removed it was begun as verified, or verified
    with the code last issued for it and not after the expiry of that code. -/
def Entitled (address : Text) : List Done → Prop
  | [] => False
  | d :: history =>
    match d.call, d.result with
    | .begin input true _ _ _, .ok _ =>
      normalizeEmailAddress toLowerCase input = address ∨ Entitled address history
    | .verify input code checkedAt _, .ok _ =>
      (normalizeEmailAddress toLowerCase input = address ∧ ∃ expiresAt,
        issued toLowerCase address history = some (trim code, expiresAt) ∧ checkedAt ≤ expiresAt) ∨
      Entitled address history
    | .remove input, _ =>
      normalizeEmailAddress toLowerCase input ≠ address ∧ Entitled address history
    | _, _ => Entitled address history

end

/-! ### The table and its history -/

section
variable {toLowerCase sha256Hex : Text → Text}

/-- What a row says agrees with the history. -/
structure RowOk (toLowerCase sha256Hex : Text → Text) (history : List Done)
    (row : EmailDestination) : Prop where
  default : row.isDefault = true → row.verified = true
  entitled : row.verified = true → Entitled toLowerCase row.address history
  pending : row.verified = false → ∀ hash expiresAt, row.codeHash = some hash →
    row.codeExpiresAt = some expiresAt →
    ∃ code, issued toLowerCase row.address history = some (code, expiresAt) ∧
      hash = codeDigest sha256Hex row.address code

/-- The invariant of the table and its history. -/
structure DestInv (toLowerCase sha256Hex : Text → Text) (s : DestState) : Prop where
  rows : ∀ row ∈ s.table.rows, RowOk toLowerCase sha256Hex s.history row
  single : ∀ row ∈ s.table.rows, ∀ other ∈ s.table.rows, row.isDefault = true →
    other.isDefault = true → row.address = other.address

theorem codeDigest_injective (hsha : Function.Injective sha256Hex) {address code code' : Text}
    (h : codeDigest sha256Hex address code = codeDigest sha256Hex address code') : code = code' := by
  have htext : address ++ ':' :: code = address ++ ':' :: code' := hsha h
  exact List.tail_eq_of_cons_eq (List.append_cancel_left htext)

/-- A call that changes no history of an address keeps a row of it. -/
theorem RowOk.cons {history : List Done} {row : EmailDestination} {d : Done}
    (h : RowOk toLowerCase sha256Hex history row)
    (hissued : issued toLowerCase row.address (d :: history) = issued toLowerCase row.address history)
    (hentitled : Entitled toLowerCase row.address history →
      Entitled toLowerCase row.address (d :: history)) :
    RowOk toLowerCase sha256Hex (d :: history) row := by
  refine ⟨h.default, fun hverified => hentitled (h.entitled hverified), ?_⟩
  rw [hissued]
  exact h.pending

/-- A call that leaves the table as it is and throws. -/
theorem destInv_error {s : DestState} (h : DestInv toLowerCase sha256Hex s) {call : DestinationCall}
    {e : Thrown} (hcall : ∀ address, call ≠ .remove address) :
    DestInv toLowerCase sha256Hex ⟨s.table, ⟨call, .error e⟩ :: s.history⟩ := by
  refine ⟨?_, h.single⟩
  intro row hrow
  cases call with
  | begin input preVerified digits now issuedAt =>
    apply (h.rows row hrow).cons rfl
    cases preVerified <;> exact id
  | verify input code checkedAt now => exact (h.rows row hrow).cons rfl id
  | setDefault input => exact (h.rows row hrow).cons rfl id
  | remove input => exact absurd rfl (hcall input)

/-- A begin that verifies its address. -/
theorem destInv_beginVerified {s : DestState} (h : DestInv toLowerCase sha256Hex s) (input : Text)
    (preVerified : Bool) (digits now issuedAt : ℕ)
    (hverified : (s.table.find? (normalizeEmailAddress toLowerCase input)).any
      EmailDestination.verified = true ∨ preVerified = true)
    (destination : Option EmailDestinationRecord) :
    DestInv toLowerCase sha256Hex
      ⟨s.table.upsert (verifiedRow (normalizeEmailAddress toLowerCase input) now s.table.rows.isEmpty)
          (markVerified now).set (markVerified now).address,
        ⟨.begin input preVerified digits now issuedAt, .ok (.begun destination none)⟩ ::
          s.history⟩ := by
  constructor
  · intro row hrow
    rcases Rows.mem_upsert_at (markVerified now).address hrow with ⟨hkey, heq⟩ | ⟨hkey, hold⟩
    · have hset : row.verified = true := by
        rw [heq]
        cases s.table.find? _ <;> rfl
      refine ⟨fun _ => hset, ?_, fun hfalse => absurd (hset.symm.trans hfalse) (by simp)⟩
      intro _
      have hkey : row.address = normalizeEmailAddress toLowerCase input := hkey
      cases preVerified with
      | true => exact .inl hkey.symm
      | false =>
        -- the address was verified before
        rcases hverified with hany | hfalse
        · obtain ⟨old, hfind, hold⟩ := (Option.any_eq_true _ _).mp hany
          obtain ⟨hmem, haddress⟩ := Rows.find?_eq_some.mp hfind
          have hentitled := (h.rows old hmem).entitled hold
          rw [haddress, ← hkey] at hentitled
          exact hentitled
        · cases hfalse
    · apply (h.rows row hold).cons rfl
      intro hentitled
      cases preVerified with
      | true => exact .inr hentitled
      | false => exact hentitled
  · -- a new default has no other row beside it
    have horigin : ∀ row ∈ (s.table.upsert
        (verifiedRow (normalizeEmailAddress toLowerCase input) now s.table.rows.isEmpty)
          (markVerified now).set (markVerified now).address).rows, row.isDefault = true → (∃ old ∈ s.table.rows, old.address = row.address ∧
          old.isDefault = true) ∨
          (s.table.rows = [] ∧ row.address = normalizeEmailAddress toLowerCase input) := by
      intro row hrow hdefault
      rcases Rows.mem_upsert_at (markVerified now).address hrow with ⟨hkey, heq⟩ | ⟨-, hold⟩
      · have heq : row = (s.table.find? (normalizeEmailAddress toLowerCase input)).elim
            (verifiedRow (normalizeEmailAddress toLowerCase input) now s.table.rows.isEmpty)
            (markVerified now).set := heq
        cases hfind : s.table.find? (normalizeEmailAddress toLowerCase input) with
        | none =>
          right
          refine ⟨?_, hkey⟩
          rw [heq, hfind] at hdefault
          exact List.isEmpty_iff.mp hdefault
        | some old =>
          left
          obtain ⟨hmem, haddress⟩ := Rows.find?_eq_some.mp hfind
          refine ⟨old, hmem, haddress.trans hkey.symm, ?_⟩
          rw [heq, hfind] at hdefault
          exact hdefault
      · exact .inl ⟨row, hold, rfl, hdefault⟩
    intro row hrow other hother hdefault hdefault'
    rcases horigin row hrow hdefault with ⟨old, hold, haddress, hd⟩ | ⟨hempty, haddress⟩
    · rcases horigin other hother hdefault' with ⟨old', hold', haddress', hd'⟩ | ⟨hempty, -⟩
      · rw [← haddress, ← haddress']
        exact h.single old hold old' hold' hd hd'
      · rw [hempty] at hold
        cases hold
    · rcases horigin other hother hdefault' with ⟨old', hold', -, -⟩ | ⟨-, haddress'⟩
      · rw [hempty] at hold'
        cases hold'
      · exact haddress.trans haddress'.symm

/-- The row of an address that gets a code: unverified, and so not the default. -/
theorem pending_row {s : DestState} (h : DestInv toLowerCase sha256Hex s) {address : Text}
    (hverified : (s.table.find? address).any EmailDestination.verified = false) (hash : Text)
    (expiresAt now : ℕ) :
    let row := (s.table.find? address).elim (pendingRow address hash expiresAt now)
      (setCode hash expiresAt).set
    row.verified = false ∧ row.isDefault = false ∧ row.codeHash = some hash ∧
      row.codeExpiresAt = some expiresAt := by
  cases hfind : s.table.find? address with
  | none => exact ⟨rfl, rfl, rfl, rfl⟩
  | some old =>
    rw [hfind] at hverified
    have hold : old.verified = false := hverified
    have hmem := (Rows.find?_eq_some.mp hfind).1
    have hdefault : old.isDefault = false := by
      by_contra hne
      have hset := (h.rows old hmem).default (by simpa using hne)
      exact absurd (hset.symm.trans hold) (by simp)
    exact ⟨hold, hdefault, rfl, rfl⟩

/-- A begin that issues a code. -/
theorem destInv_beginCode {s : DestState} (h : DestInv toLowerCase sha256Hex s) (input : Text)
    (digits now issuedAt : ℕ) {address : Text}
    (haddress : normalizeEmailAddress toLowerCase input = address)
    (hverified : (s.table.find? address).any EmailDestination.verified = false)
    (destination : Option EmailDestinationRecord) (code hash : Text) (expiresAt : ℕ)
    (hhash : hash = codeDigest sha256Hex address code)
    (hexpires : expiresAt = issuedAt + emailDestinationCodeTtlMs) :
    DestInv toLowerCase sha256Hex
      ⟨s.table.upsert (pendingRow address hash expiresAt now) (setCode hash expiresAt).set
          (setCode hash expiresAt).address,
        ⟨.begin input false digits now issuedAt, .ok (.begun destination (some code))⟩ ::
          s.history⟩ := by
  have hpending := pending_row h hverified hash expiresAt now
  constructor
  · intro row hrow
    rcases Rows.mem_upsert_at (setCode hash expiresAt).address hrow with ⟨hkey, heq⟩ | ⟨hkey, hold⟩
    · have hkey : row.address = address := hkey
      have hrow : row = (s.table.find? address).elim (pendingRow address hash expiresAt now)
        (setCode hash expiresAt).set := heq
      obtain ⟨hset, hdefault, hcode, hexpiry⟩ := hpending
      rw [← hrow] at hset hdefault hcode hexpiry
      refine ⟨?_, ?_, ?_⟩
      · intro htrue
        exact absurd (hdefault.symm.trans htrue) (by simp)
      · intro htrue
        exact absurd (hset.symm.trans htrue) (by simp)
      · intro _ hash' expiresAt' hcode' hexpiry'
        cases Option.some.inj (hcode.symm.trans hcode')
        cases Option.some.inj (hexpiry.symm.trans hexpiry')
        refine ⟨code, ?_, ?_⟩
        · rw [hexpires]
          exact if_pos (haddress.trans hkey.symm)
        · rw [hkey]
          exact hhash
    · apply (h.rows row hold).cons _ id
      apply if_neg
      rw [haddress]
      exact Ne.symm hkey
  · have hold : ∀ row ∈ (s.table.upsert (pendingRow address hash expiresAt now)
        (setCode hash expiresAt).set (setCode hash expiresAt).address).rows,
        row.isDefault = true → row ∈ s.table.rows := by
      intro row hrow hdefault
      rcases Rows.mem_upsert_at (setCode hash expiresAt).address hrow with ⟨-, heq⟩ | ⟨-, hold⟩
      · rw [heq] at hdefault
        exact absurd (hpending.2.1.symm.trans hdefault) (by simp)
      · exact hold
    intro row hrow other hother hdefault hdefault'
    exact h.single row (hold row hrow hdefault) other (hold other hother hdefault') hdefault hdefault'

/-- A code that is accepted. -/
theorem destInv_verify {s : DestState} (hsha : Function.Injective sha256Hex)
    (h : DestInv toLowerCase sha256Hex s) (input code : Text) (checkedAt now : ℕ) {address : Text}
    (haddress : normalizeEmailAddress toLowerCase input = address) {found : EmailDestination}
    (hfind : s.table.find? address = some found) (hverified : found.verified = false)
    (haccepted : codeAccepted sha256Hex address code checkedAt found = true)
    (result : DestinationResult) (change : DestinationChange)
    (hchange : change = confirm address now (!s.table.rows.any EmailDestination.isDefault)) :
    DestInv toLowerCase sha256Hex ⟨s.table.map change.set change.address,
      ⟨.verify input code checkedAt now, .ok result⟩ :: s.history⟩ := by
  subst hchange
  obtain ⟨hmem, hkey⟩ := Rows.find?_eq_some.mp hfind
  -- the code is the one last issued
  have hissued : ∃ expiresAt, issued toLowerCase address s.history = some (trim code, expiresAt) ∧
      checkedAt ≤ expiresAt := by
    unfold codeAccepted at haccepted
    rw [Bool.and_eq_true, Option.any_eq_true, Option.any_eq_true] at haccepted
    obtain ⟨⟨expiresAt, hexpires, hle⟩, hash, hhash, hdigest⟩ := haccepted
    obtain ⟨code', hissued, hsame⟩ := (h.rows found hmem).pending hverified hash expiresAt hhash hexpires
    rw [hkey] at hissued hsame
    rw [hsame, decide_eq_true_eq] at hdigest
    rw [codeDigest_injective hsha hdigest]
    exact ⟨expiresAt, hissued, of_decide_eq_true hle⟩
  constructor
  · intro row hrow
    obtain ⟨old, hold, heq⟩ := List.mem_map.mp hrow
    unfold confirm at heq
    dsimp only at heq
    split at heq
    · rename_i htarget
      subst heq
      refine ⟨fun _ => rfl, fun _ => .inl ⟨haddress.trans htarget.symm, ?_⟩, ?_⟩
      · show ∃ expiresAt, issued toLowerCase old.address s.history = _ ∧ _
        rw [htarget]
        exact hissued
      · intro hfalse
        cases hfalse
    · subst heq
      exact (h.rows old hold).cons rfl .inr
  · -- the address becomes the default only where there is none
    have hdefaults : ∀ row ∈ (s.table.map (confirm address now _).set
        (confirm address now (!s.table.rows.any EmailDestination.isDefault)).address).rows,
        row.isDefault = true → row ∈ s.table.rows ∨
          (row.address = address ∧ s.table.rows.any EmailDestination.isDefault = false) := by
      intro row hrow hdefault
      obtain ⟨old, hold, heq⟩ := List.mem_map.mp hrow
      unfold confirm at heq
      dsimp only at heq
      split at heq
      · rename_i htarget
        subst heq
        right
        exact ⟨htarget, by simpa using hdefault⟩
      · subst heq
        exact .inl hold
    have hnone : s.table.rows.any EmailDestination.isDefault = false → ∀ row ∈ s.table.rows,
        row.isDefault ≠ true := by
      intro hany row hrow hdefault
      exact absurd (hany.symm.trans (List.any_eq_true.mpr ⟨row, hrow, hdefault⟩)) (by simp)
    intro row hrow other hother hdefault hdefault'
    rcases hdefaults row hrow hdefault with hold | ⟨haddress, hany⟩
    · rcases hdefaults other hother hdefault' with hold' | ⟨-, hany⟩
      · exact h.single row hold other hold' hdefault hdefault'
      · exact absurd hdefault (hnone hany row hold)
    · rcases hdefaults other hother hdefault' with hold' | ⟨haddress', -⟩
      · exact absurd hdefault' (hnone hany other hold')
      · exact haddress.trans haddress'.symm

/-- A verified address is made the default. -/
theorem destInv_setDefault {s : DestState} (h : DestInv toLowerCase sha256Hex s) (input : Text)
    {address : Text} {found : EmailDestination} (hfind : s.table.find? address = some found)
    (hverified : found.verified = true) (result : DestinationResult) :
    DestInv toLowerCase sha256Hex
      ⟨s.table.map (chooseDefault address).set (chooseDefault address).address,
        ⟨.setDefault input, .ok result⟩ :: s.history⟩ := by
  constructor
  · intro row hrow
    obtain ⟨old, hold, rfl⟩ := List.mem_map.mp hrow
    have hrow : RowOk toLowerCase sha256Hex (⟨.setDefault input, .ok result⟩ :: s.history) old :=
      (h.rows old hold).cons rfl id
    refine ⟨?_, hrow.entitled, hrow.pending⟩
    intro hdefault
    have htarget : old.address = address := of_decide_eq_true hdefault
    have hsame : s.table.find? address = some old := Rows.find?_eq_some.mpr ⟨hold, htarget⟩
    cases Option.some.inj (hfind.symm.trans hsame)
    exact hverified
  · intro row hrow other hother hdefault hdefault'
    obtain ⟨old, -, rfl⟩ := List.mem_map.mp hrow
    obtain ⟨old', -, rfl⟩ := List.mem_map.mp hother
    have htarget : old.address = address := of_decide_eq_true hdefault
    have htarget' : old'.address = address := of_decide_eq_true hdefault'
    exact htarget.trans htarget'.symm

theorem destInv_remove {s : DestState} (h : DestInv toLowerCase sha256Hex s) (input : Text)
    (result : Except Thrown DestinationResult) :
    DestInv toLowerCase sha256Hex
      ⟨s.table.filter fun row => decide (row.address ≠ normalizeEmailAddress toLowerCase input),
        ⟨.remove input, result⟩ :: s.history⟩ := by
  constructor
  · intro row hrow
    obtain ⟨hold, hkeep⟩ := List.mem_filter.mp hrow
    have hne : normalizeEmailAddress toLowerCase input ≠ row.address := Ne.symm (of_decide_eq_true hkeep)
    exact (h.rows row hold).cons (if_neg hne) fun hentitled => ⟨hne, hentitled⟩
  · intro row hrow other hother
    exact h.single row (List.mem_filter.mp hrow).1 other (List.mem_filter.mp hother).1

theorem destInv_empty : DestInv toLowerCase sha256Hex .empty := by
  constructor
  · intro row hrow
    cases hrow
  · intro row hrow
    cases hrow

/-- **One call** keeps the table in line with its history. -/
theorem destInv_step (hsha : Function.Injective sha256Hex)
    (hlower : ∀ address, normalizeEmailAddress toLowerCase (normalizeEmailAddress toLowerCase address) =
      normalizeEmailAddress toLowerCase address)
    {s : DestState} (h : DestInv toLowerCase sha256Hex s) (call : DestinationCall) :
    DestInv toLowerCase sha256Hex (destStep toLowerCase sha256Hex s call) := by
  cases call with
  | begin input preVerified digits now issuedAt =>
    simp only [destStep, destinationCall, emailDestinationBegin]
    split
    · exact destInv_error h (by simp)
    · split
      · rename_i hverified
        rw [Bool.or_eq_true] at hverified
        exact destInv_beginVerified h input preVerified digits now issuedAt hverified _
      · rename_i hpending
        rw [Bool.or_eq_true, not_or, Bool.not_eq_true, Bool.not_eq_true] at hpending
        obtain ⟨hverified, rfl⟩ := hpending
        exact destInv_beginCode h input digits now issuedAt rfl hverified _ _ _ _ rfl rfl
  | verify input code checkedAt now =>
    simp only [destStep, destinationCall, emailDestinationVerify]
    split
    · exact destInv_error h (by simp)
    · rename_i found hfind
      split
      · -- an address that is verified already
        refine ⟨?_, h.single⟩
        intro row hrow
        exact (h.rows row hrow).cons rfl .inr
      · rename_i hverified
        rw [Bool.not_eq_true] at hverified
        split
        · rename_i haccepted
          exact destInv_verify hsha h input code checkedAt now rfl hfind hverified haccepted _ _ rfl
        · exact destInv_error h (by simp)
  | setDefault input =>
    simp only [destStep, destinationCall, emailDestinationSetDefault]
    split
    · rename_i hany
      rw [hlower, Option.any_eq_true] at hany
      obtain ⟨found, hfind, hverified⟩ := hany
      exact destInv_setDefault h input hfind hverified _
    · exact destInv_error h (by simp)
  | remove input => exact destInv_remove h input _

theorem destInv_after (hsha : Function.Injective sha256Hex)
    (hlower : ∀ address, normalizeEmailAddress toLowerCase (normalizeEmailAddress toLowerCase address) =
      normalizeEmailAddress toLowerCase address)
    (calls : List DestinationCall) {s : DestState} (h : DestInv toLowerCase sha256Hex s) :
    DestInv toLowerCase sha256Hex (destAfter toLowerCase sha256Hex calls s) := by
  induction calls generalizing s with
  | nil => exact h
  | cons call rest ih => exact ih (destInv_step hsha hlower h call)

end

/-- **Email destinations.** After every sequence of calls on an empty table at most one destination is
    the default, the default is verified, and each verified destination is entitled to it by the calls
    since it was last added. -/
theorem destinations_ok (toLowerCase sha256Hex : Text → Text)
    (hsha : Function.Injective sha256Hex)
    (hlower : ∀ address, normalizeEmailAddress toLowerCase (normalizeEmailAddress toLowerCase address) =
      normalizeEmailAddress toLowerCase address)
    (calls : List DestinationCall) :
    let s := destAfter toLowerCase sha256Hex calls .empty
    (∀ row ∈ s.table.rows, ∀ other ∈ s.table.rows, row.isDefault = true → other.isDefault = true →
      row = other) ∧
    (∀ row ∈ s.table.rows, row.isDefault = true → row.verified = true) ∧
    ∀ row ∈ s.table.rows, row.verified = true → Entitled toLowerCase row.address s.history := by
  intro s
  have hinv : DestInv toLowerCase sha256Hex s := destInv_after hsha hlower calls destInv_empty
  refine ⟨?_, ?_, ?_⟩
  · intro row hrow other hother hdefault hdefault'
    exact List.inj_on_of_nodup_map s.table.nodup hrow hother
      (hinv.single row hrow other hother hdefault hdefault')
  · exact fun row hrow => (hinv.rows row hrow).default
  · exact fun row hrow => (hinv.rows row hrow).entitled

/-! ### A sample history -/

/-- SHA-256 of the sample code under its address, made a bijection. -/
def sampleSha256 (text : Text) : Text :=
  Equiv.swap ("a@b.co:000042" : Text)
    "3f589d9ef0cc8e03e4f712bea00b9ddf93a685e8127a28016bb26cec33d9d953" text

/-- An address is begun, verified with its code in time, and made the default. -/
def sampleCalls : List DestinationCall :=
  [.begin " a@b.co " false 42 0 1000, .verify "a@b.co" "000042 " 1801000 1801000,
    .setDefault "a@b.co"]

/-- The sample ends with one destination, verified and the default. -/
theorem destinations_ok_sample :
    let s := destAfter id sampleSha256 sampleCalls .empty
    s.table.rows.map (fun row => (row.verified, row.isDefault)) = [(true, true)] ∧
    (∀ row ∈ s.table.rows, ∀ other ∈ s.table.rows, row.isDefault = true → other.isDefault = true →
      row = other) ∧
    (∀ row ∈ s.table.rows, row.isDefault = true → row.verified = true) ∧
    ∀ row ∈ s.table.rows, row.verified = true → Entitled id row.address s.history :=
  ⟨by decide +kernel, destinations_ok id sampleSha256 (Equiv.injective _) trim_trim sampleCalls⟩

end KodyCelld.Email
