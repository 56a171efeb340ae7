import KodyCelld.Email.Outbound

namespace KodyCelld.Email

open KodyCelld.Lib
open KodyCelld.Auth.AccountStore (isEmail)
open KodyCelld.MailBridge (MailOptions buildMailOptions normalizeAddress hostOf oneLine isLineBreak
  mem_addressList normalizeAddress_strip fromAddress_ok sendHeaders movedHeader without)
open KodyCelld.OAuth (cutTo)

/-!
# No open relay (`capabilities/email.ts`, `email/service.ts`)

A package may send to the account's email, to the domain, and to verified destinations.  Kody checks the
texts of the recipients; the bridge drops angle brackets around them.

* `emailSend` — the capability, up to the message that is stored and posted;
* `handed` — what the bridge hands to its transport;
* `RelaySafe` — the recipients are permitted, the sender is an inbox of the user, and the headers are
  those that a package may set;
* `no_relay` — every call of an account is safe exactly when the bridge reads its email as it stands,
  or reads no foreign address in it;
* `relayed` — a call that is not.
-/

/-- What a package passes to `emailSend`; `attachments` is what their own checks leave. -/
structure SendArgs where
  toArg : Option Json
  cc : Option Json
  subject : Option Json
  text : Option Json
  html : Option Json
  fromArg : Option Json
  replyTo : Option Json
  headers : Option Json
  attachments : Except Thrown (List (EmailAttachmentMeta × Text))

/-- An account, with its email as `createUser` leaves it, and the inboxes that it owns. -/
structure Account (l : LowerCase) where
  email : Text
  normal : l.normalize email = email
  valid : isEmail email = true
  locals : List InboxLocal

/-- The table of destinations each time that a call reads it. -/
structure Moments where
  begun : Destinations
  listed : Destinations
  asked : ℕ → Destinations

/-! ### The capability -/

def optionalText (value : Option Json) (field : Text) : Except Thrown (Option Text) :=
  match value with
  | none => .ok none
  | some .null => .ok none
  | some (.str text) => .ok (orNull (some text))
  | some _ => .error (.kody "invalid_args" ("\"" ++ field ++ "\" must be a string."))

def subjectInput (value : Option Json) : Except Thrown Text :=
  match value with
  | some (.str text) =>
    if (trim text).isEmpty then .error (.kody "invalid_args" "\"subject\" is required.")
    else .ok (cutTo 998 (trim (oneLine text)))
  | _ => .error (.kody "invalid_args" "\"subject\" is required.")

def headerEntries : List (Text × Json) → Obj Text → Except Thrown (Obj Text)
  | [], out => .ok out
  | (key, .str value) :: rest, out => headerEntries rest (out.set key value)
  | (key, _) :: _, _ => .error (.kody "invalid_args" ("headers." ++ key ++ " must be a string."))

def headersInput (value : Option Json) : Except Thrown (Obj Text) :=
  match value with
  | none => .ok .empty
  | some .null => .ok .empty
  | some (.obj members) => headerEntries members .empty
  | some _ => .error (.kody "invalid_args" "\"headers\" must be an object.")

/-- `ORDER BY is_default DESC, address` -/
def destinationBefore (a b : EmailDestination) : Bool :=
  if a.isDefault = b.isDefault then decide (a.address ≤ b.address) else a.isDefault

def emailDestinationList (table : Destinations) : List EmailDestinationRecord :=
  (table.rows.mergeSort destinationBefore).map rowToDestination

/-- The default destination, or else the first one that is verified. -/
def fallbackDestination (destinations : List EmailDestinationRecord) :
    Option EmailDestinationRecord :=
  (destinations.find? fun d => d.isDefault && d.verified).orElse fun _ =>
    destinations.find? EmailDestinationRecord.verified

section
variable (l : LowerCase) (sha256Hex : Text → Text)
  (addressParser : Text → Option (List ParsedAddress))

/-- The recipients of a call: those it names, or the fallback. -/
def sendTo (listed : Destinations) (toArg : Option Json) : Except Thrown (List EmailAddress) :=
  match addressList l addressParser toArg "to" with
  | .error e => .error e
  | .ok (first :: rest) => .ok (first :: rest)
  | .ok [] =>
    match fallbackDestination (emailDestinationList listed) with
    | none => .error (.kody "invalid_args" "\"to\" is required (no default destination).")
    | some fallback => .ok [⟨fallback.address, none⟩]

/-- The inbox name that a call asks for. -/
def fromLocal (fromArg : Option Json) : Option Text :=
  match fromArg with
  | some (.str text) => if (trim text).isEmpty then none else some (l.normalize text)
  | _ => none

/-- The input of `sendUserEmail` that the arguments give, checked in the order of the source. -/
def sendInput (listed : Destinations) (args : SendArgs) : Except Thrown SendInput := do
  let toAddresses ← sendTo l addressParser listed args.toArg
  let cc ← addressList l addressParser args.cc "cc"
  let subject ← subjectInput args.subject
  let text ← optionalText args.text "text"
  let html ← optionalText args.html "html"
  let replyTo ← addressList l addressParser args.replyTo "replyTo"
  let headers ← headersInput args.headers
  let attachments ← args.attachments
  return { toAddresses := toAddresses, cc := cc, subject := subject, text := text, html := html
           fromLocal := fromLocal l args.fromArg, replyTo := replyTo, headers := headers
           attachments := attachments, inReplyTo := none, packageName := none
           trustRecipients := false }

/-- `emailSend`, up to the message that is stored and posted. -/
def emailSend (config : EmailConfig) (account : Account l) (moments : Moments) (args : SendArgs) :
    Except Thrown OutboundMessage :=
  match (emailDestinationBegin l.toLowerCase sha256Hex account.email true 0 0 0 moments.begun).1 with
  | .error e => .error e
  | .ok _ =>
    match sendInput l addressParser moments.listed args with
    | .error e => .error e
    | .ok input => sendUserEmail l config account.email account.locals moments.asked input

/-- What the bridge hands to its transport after a call: nothing where the call throws, its message is
    not stored, or the bridge refuses it. -/
def handed (config : EmailConfig) (account : Account l) (moments : Moments) (args : SendArgs)
    (stored : Except Thrown Unit) (domains : List Text) (uuid : Text) : Option MailOptions :=
  match emailSend l sha256Hex addressParser config account moments args, stored with
  | .ok message, .ok () =>
    (buildMailOptions l domains uuid (buildOutboundRequest l message)).toOption
  | _, _ => none

/-! ### What is safe -/

/-- An address on the domain. -/
def OnDomain (domain : EmailDomain) (address : Text) : Prop :=
  ∃ name, splitLast '@' address = some (name, domain.text)

/-- Whom a package may send to. -/
def Permitted (domain : EmailDomain) (account : Account l) (moments : Moments) (address : Text) :
    Prop :=
  address = account.email ∨ OnDomain domain address ∨
    ∃ i, emailDestinationIsVerified l address (moments.asked i) = true

/-- **What a call may hand over**: permitted recipients, a sender that is an inbox of the user, and no
    header but those that a package may set. -/
structure RelaySafe (domain : EmailDomain) (account : Account l) (moments : Moments)
    (options : MailOptions) : Prop where
  recipients : ∀ recipient ∈ options.toAddresses ++ options.cc,
    Permitted l domain account moments recipient.address
  sender : ∃ inbox ∈ account.locals, options.fromAddress.address = inbox.text ++ '@' :: domain.text
  headers : ∀ entry ∈ options.headers.entries,
    entry.1 ∈ allowedOutboundHeaders ∧ entry.2.any isLineBreak = false
  threading : options.inReplyTo = none ∧ options.references = none

/-- The calls that Kody makes on the destinations of an account: its own email is verified at once, and
    any other address must be one for Kody. -/
def Requested (email : Text) : DestinationCall → Prop
  | .begin address true _ _ _ => address = email
  | .begin address false _ _ _ => isEmailAddress (l.normalize address) = true
  | _ => True

/-- A state that the table of an account can be in. -/
def TableOf (email : Text) (table : Destinations) : Prop :=
  ∃ calls, (∀ call ∈ calls, Requested l email call) ∧
    table = (destAfter l.toLowerCase sha256Hex calls .empty).table

structure Moments.Of (moments : Moments) (email : Text) : Prop where
  begun : TableOf l sha256Hex email moments.begun
  listed : TableOf l sha256Hex email moments.listed
  asked : ∀ i, TableOf l sha256Hex email (moments.asked i)

/-- **An email that makes no relay**: it is too long to send from, its user owns no inbox, or the bridge
    reads it as it stands, as no address, or as one on the domain. -/
def Harmless (domain : EmailDomain) (account : Account l) : Prop :=
  254 < utf16Length account.email ∨ account.locals = [] ∨
    normalizeAddress l account.email = account.email ∨
    MailBridge.isEmailAddress (normalizeAddress l account.email) = false ∨
    hostOf (normalizeAddress l account.email) = domain.text

end

/-! ### The rows of destinations -/

section
variable {l : LowerCase} {sha256Hex : Text → Text} {email : Text}

/-- A row's address is trimmed and in lower case, and is the account's email or one for Kody. -/
def NamedRow (l : LowerCase) (email : Text) (row : EmailDestination) : Prop :=
  l.normalize row.address = row.address ∧ (row.address = email ∨ isEmailAddress row.address = true)

theorem namedRow_begin {input : Text} {preVerified : Bool} {digits now issuedAt : ℕ}
    (hemail : l.normalize email = email)
    (hcall : Requested l email (.begin input preVerified digits now issuedAt))
    {table : Destinations} (h : ∀ row ∈ table.rows, NamedRow l email row) :
    ∀ row ∈ (emailDestinationBegin l.toLowerCase sha256Hex input preVerified digits now issuedAt
      table).2.rows, NamedRow l email row := by
  have hnew : NamedRow l email (verifiedRow (l.normalize input) 0 false) := by
    refine ⟨l.normalize_normalize input, ?_⟩
    show l.normalize input = email ∨ isEmailAddress (l.normalize input) = true
    cases preVerified with
    | true =>
      have hsame : input = email := hcall
      rw [hsame]
      exact .inl hemail
    | false => exact .inr hcall
  have hupsert : ∀ (new : EmailDestination) (change : DestinationChange),
      new.address = l.normalize input →
      ∀ row ∈ (table.upsert new change.set change.address).rows, NamedRow l email row := by
    intro new change haddress row hrow
    rcases Rows.mem_upsert hrow with rfl | ⟨old, hold, rfl | rfl⟩
    · unfold NamedRow
      rw [haddress]
      exact hnew
    · exact h row hold
    · unfold NamedRow
      rw [change.address]
      exact h old hold
  unfold emailDestinationBegin
  dsimp only
  split
  · exact h
  · split
    · exact hupsert _ (markVerified now) rfl
    · exact hupsert _ (setCode _ _) rfl

/-- A change of rows that keeps their addresses keeps them named. -/
theorem namedRow_map {table : Destinations} (h : ∀ row ∈ table.rows, NamedRow l email row)
    (change : DestinationChange) :
    ∀ row ∈ (table.map change.set change.address).rows, NamedRow l email row := by
  intro row hrow
  obtain ⟨old, hold, rfl⟩ := Rows.mem_map.mp hrow
  unfold NamedRow
  rw [change.address]
  exact h old hold

/-- One call keeps the rows named. -/
theorem namedRow_call (hemail : l.normalize email = email) {call : DestinationCall}
    (hcall : Requested l email call) {table : Destinations}
    (h : ∀ row ∈ table.rows, NamedRow l email row) :
    ∀ row ∈ (destinationCall l.toLowerCase sha256Hex call table).2.rows, NamedRow l email row := by
  cases call with
  | begin input preVerified digits now issuedAt => exact namedRow_begin hemail hcall h
  | verify input code checkedAt now =>
    simp only [destinationCall, emailDestinationVerify]
    split
    · exact h
    · split_ifs
      · exact h
      · exact namedRow_map h _
      · exact h
  | setDefault input =>
    simp only [destinationCall, emailDestinationSetDefault]
    split_ifs
    · exact namedRow_map h _
    · exact h
  | remove input =>
    intro row hrow
    exact h row (Rows.mem_filter.mp hrow).1

/-- **The rows of an account's table** are named, after any calls. -/
theorem TableOf.named (hemail : l.normalize email = email) {table : Destinations}
    (h : TableOf l sha256Hex email table) : ∀ row ∈ table.rows, NamedRow l email row := by
  obtain ⟨calls, hcalls, rfl⟩ := h
  have hrun : ∀ (calls : List DestinationCall) (s : DestState),
      (∀ call ∈ calls, Requested l email call) → (∀ row ∈ s.table.rows, NamedRow l email row) →
      ∀ row ∈ (destAfter l.toLowerCase sha256Hex calls s).table.rows, NamedRow l email row := by
    intro calls
    induction calls with
    | nil => exact fun s _ hs => hs
    | cons call rest ih =>
      intro s hcalls hs
      obtain ⟨hcall, hrest⟩ := List.forall_mem_cons.mp hcalls
      exact ih _ hrest (namedRow_call hemail hcall hs)
  exact hrun calls .empty hcalls fun row hrow => absurd hrow List.not_mem_nil

end

/-! ### Headers -/

theorem mem_set {α : Type} {o : Obj α} {key : Text} {value : α} {entry : Text × α}
    (h : entry ∈ (o.set key value).entries) : entry ∈ o.entries ∨ entry = (key, value) := by
  unfold Obj.set at h
  split at h
  · exact .inl h
  · have hget := Obj.get?_eq_some_iff.mpr h
    rw [Obj.get?_define] at hget
    split at hget
    · rename_i hkey
      exact .inr (Prod.ext hkey.symm (Option.some.inj hget).symm)
    · exact .inl (Obj.get?_eq_some_iff.mp hget)

/-- The entries of an object that is built item by item. -/
theorem mem_foldl_entries {α β : Type} {P : Text × α → Prop} {step : Obj α → β → Obj α}
    {items : List β}
    (hstep : ∀ o, ∀ item ∈ items, ∀ entry ∈ (step o item).entries, entry ∈ o.entries ∨ P entry)
    {o : Obj α} {entry : Text × α} (h : entry ∈ (items.foldl step o).entries) :
    entry ∈ o.entries ∨ P entry := by
  induction items generalizing o with
  | nil => exact .inl h
  | cons item rest ih =>
    rw [List.foldl_cons] at h
    rcases ih (fun o i hi => hstep o i (List.mem_cons_of_mem _ hi)) h with hrest | hP
    · exact hstep o item List.mem_cons_self entry hrest
    · exact .inr hP

theorem cutTo_subset (max : ℕ) (text : Text) : cutTo max text ⊆ text := by
  induction text generalizing max with
  | nil => exact List.Subset.refl _
  | cons c rest ih =>
    rw [cutTo]
    generalize (if 0x10000 ≤ c.toNat then 2 else 1) = units
    split
    · exact List.nil_subset _
    · exact List.cons_subset_cons c (ih _)

section
variable {l : LowerCase} {message : OutboundMessage}

/-- Lower-casing leaves the names of the allowed headers alone. -/
theorem allowed_lower {name : Text} (h : name ∈ allowedOutboundHeaders) : l.toLowerCase name = name := by
  have hplain : ∀ name ∈ allowedOutboundHeaders, ∀ c ∈ name, c.toNat < 128 ∧ ¬('A' ≤ c ∧ c ≤ 'Z') := by
    decide
  exact l.fixes name fun c hc => l.ascii c (hplain name h c hc).1 (hplain name h c hc).2

theorem customHeaders_allowed (hreply : message.inReplyTo = none) (hreferences : message.references = [])
    {entry : Text × Text} (h : entry ∈ (customHeaders l message).entries) :
    entry.1 ∈ allowedOutboundHeaders := by
  unfold customHeaders at h
  rw [hreply, hreferences] at h
  have hmem := mem_foldl_entries (P := fun entry => entry.1 ∈ allowedOutboundHeaders) ?_ h
  · exact hmem.resolve_left List.not_mem_nil
  · rintro o ⟨name, value⟩ - entry hentry
    dsimp only at hentry
    split at hentry
    · rename_i hallowed
      rcases mem_set hentry with hold | rfl
      · exact .inl hold
      · exact .inr hallowed
    · exact .inl hentry

/-- **The headers that are handed on** are those that a package may set, each on one line. -/
theorem sendHeaders_allowed (hreply : message.inReplyTo = none) (hreferences : message.references = [])
    {entry : Text × Text} (h : entry ∈ (sendHeaders l (customHeaders l message).entries).entries) :
    entry.1 ∈ allowedOutboundHeaders ∧ entry.2.any isLineBreak = false := by
  unfold sendHeaders at h
  have hmem := mem_foldl_entries
    (P := fun entry => entry.1 ∈ allowedOutboundHeaders ∧ entry.2.any isLineBreak = false) ?_ h
  · exact hmem.resolve_left List.not_mem_nil
  · rintro o ⟨name, value⟩ hitem entry hentry
    dsimp only at hentry
    have hname : name ∈ allowedOutboundHeaders := customHeaders_allowed hreply hreferences hitem
    split at hentry
    · exact .inl hentry
    · split at hentry
      · exact .inl hentry
      · rename_i hlines
        rcases mem_set hentry with hold | rfl
        · exact .inl hold
        · refine .inr ⟨?_, ?_⟩
          · show l.toLowerCase name ∈ allowedOutboundHeaders
            rw [allowed_lower hname]
            exact hname
          · rw [List.any_eq_false]
            intro c hc
            rw [Bool.not_eq_true, List.any_eq_false] at hlines
            exact hlines c (cutTo_subset _ _ hc)

/-- A header that a package may not set is not there. -/
theorem sendHeaders_get? (hreply : message.inReplyTo = none) (hreferences : message.references = [])
    {key : Text} (hkey : key ∉ allowedOutboundHeaders) :
    (sendHeaders l (customHeaders l message).entries).get? key = none := by
  cases hget : (sendHeaders l (customHeaders l message).entries).get? key with
  | none => rfl
  | some value =>
    exact absurd (sendHeaders_allowed hreply hreferences (Obj.get?_eq_some_iff.mp hget)).1 hkey

end

/-! ### Recipients -/

section
variable {l : LowerCase} {sha256Hex : Text → Text}
  {addressParser : Text → Option (List ParsedAddress)} {domain : EmailDomain} {account : Account l}
  {moments : Moments}

/-- What the bridge reads in an address of an inbox of the domain is on the domain. -/
theorem onDomain_strip {address : Text} (hnormal : l.normalize address = address)
    (h : (splitInboxAddress l address domain.text).isSome = true) :
    OnDomain domain (stripAngles address) := by
  unfold splitInboxAddress at h
  rw [hnormal] at h
  split at h
  · cases h
  rename_i localPart host hsplit
  obtain ⟨htext, hat⟩ := eq_of_splitLast hsplit
  have hempty : localPart ≠ [] := by
    rintro rfl
    cases h
  rw [if_neg hempty] at h
  have hhost : host = domain.text := by
    by_contra hne
    rw [if_pos hne] at h
    cases h
  subst hhost
  have hclose : ('@' :: domain.text).getLast? ≠ some '>' := by
    intro hlast
    have hmem := List.mem_of_mem_getLast? hlast
    rcases List.mem_cons.mp hmem with hat | hmem
    · cases hat
    · exact (isMailChar_marks (domain.mailChars _ hmem)).2.2.1 rfl
  refine ⟨dropOpen localPart, ?_⟩
  rw [htext, stripAngles_append hempty (List.cons_ne_nil _ _) hclose]
  exact splitLast_append hat

/-- What the bridge reads in the account's email, where the email is harmless. -/
theorem permitted_email (h : Harmless l domain account) (hshort : ¬254 < utf16Length account.email)
    (hinbox : account.locals ≠ [])
    (hvalid : MailBridge.isEmailAddress (normalizeAddress l account.email) = true) :
    Permitted l domain account moments (normalizeAddress l account.email) := by
  rcases h with hlong | hnone | hsame | hinvalid | hhost
  · exact absurd hlong hshort
  · exact absurd hnone hinbox
  · exact .inl hsame
  · rw [hvalid] at hinvalid
    cases hinvalid
  · -- an address has an `@`, so what is after it is the domain
    obtain ⟨name, host, htext, -, -, hat⟩ := isEmail_parts
      (Bool.and_eq_true_iff.mp (Bool.and_eq_true_iff.mp hvalid).1).1
    refine .inr (.inl ⟨name, ?_⟩)
    rw [htext, hostOf, splitLast_append hat] at hhost
    rw [htext, splitLast_append hat]
    exact congrArg (fun host => some (name, host)) hhost

/-- **A recipient that Kody allows** is read by the bridge as one that is permitted. -/
theorem permitted_recipient (h : Harmless l domain account)
    (hshort : ¬254 < utf16Length account.email) (hinbox : account.locals ≠ [])
    (hmoments : moments.Of l sha256Hex account.email) {config : EmailConfig}
    (hconfig : config.domain = domain) {address : Text} (hnormal : l.normalize address = address)
    {i : ℕ} (hallowed : recipientAllowed l config account.email (moments.asked i) address = true)
    (hvalid : MailBridge.isEmailAddress (normalizeAddress l address) = true) :
    Permitted l domain account moments (normalizeAddress l address) := by
  unfold recipientAllowed at hallowed
  rw [Bool.or_eq_true, Bool.or_eq_true, decide_eq_true_eq, hconfig] at hallowed
  rcases hallowed with (hemail | hdomain) | hverified
  · have hsame : address = account.email := by
      rw [hemail]
      exact l.fixes _ (l.normalize_kept account.normal)
    rw [hsame] at hvalid ⊢
    exact permitted_email h hshort hinbox hvalid
  · rw [normalizeAddress_strip l hnormal]
    exact .inr (.inl (onDomain_strip hnormal hdomain))
  · obtain ⟨row, hrow⟩ : ∃ row, (moments.asked i).find?
        (normalizeEmailAddress l.toLowerCase address) = some row := by
      unfold emailDestinationIsVerified at hverified
      cases hrow : (moments.asked i).find? (normalizeEmailAddress l.toLowerCase address) with
      | none =>
        rw [hrow] at hverified
        cases hverified
      | some row => exact ⟨row, rfl⟩
    obtain ⟨hmem, haddress⟩ := Rows.find?_eq_some.mp hrow
    have haddress : row.address = address := haddress.trans hnormal
    rcases ((hmoments.asked i).named account.normal row hmem).2 with hemail | hplain
    · rw [haddress] at hemail
      rw [hemail] at hvalid ⊢
      exact permitted_email h hshort hinbox hvalid
    · -- an address that Kody verified has no bracket
      have hmarks := (Bool.and_eq_true_iff.mp (Bool.and_eq_true_iff.mp hplain).1).2
      rw [haddress, List.all_eq_true] at hmarks
      have hstrip : stripAngles address = address := by
        apply stripAngles_of_not_mem
        · intro hmem
          exact absurd (hmarks _ hmem) (by decide)
        · intro hmem
          exact absurd (hmarks _ hmem) (by decide)
      rw [normalizeAddress_strip l hnormal, hstrip]
      exact .inr (.inr ⟨i, hverified⟩)

theorem fallback_mem {table : Destinations} {found : EmailDestinationRecord}
    (h : fallbackDestination (emailDestinationList table) = some found) :
    ∃ row ∈ table.rows, row.address = found.address := by
  have hmem : found ∈ emailDestinationList table := by
    unfold fallbackDestination at h
    cases hdefault : (emailDestinationList table).find? fun d => d.isDefault && d.verified with
    | none =>
      rw [hdefault] at h
      exact List.mem_of_find?_eq_some h
    | some d =>
      rw [hdefault] at h
      obtain rfl : d = found := Option.some.inj h
      exact List.mem_of_find?_eq_some hdefault
  obtain ⟨row, hrow, rfl⟩ := List.mem_map.mp hmem
  exact ⟨row, List.mem_mergeSort.mp hrow, rfl⟩

/-- The recipients of a call are trimmed and in lower case. -/
theorem sendInput_normal {args : SendArgs} {input : SendInput}
    (hlisted : ∀ row ∈ moments.listed.rows, NamedRow l account.email row)
    (h : sendInput l addressParser moments.listed args = .ok input) :
    (∀ recipient ∈ input.toAddresses ++ input.cc, l.normalize recipient.address = recipient.address) ∧
      input.inReplyTo = none ∧ input.trustRecipients = false := by
  unfold sendInput at h
  obtain ⟨toAddresses, hto, h⟩ := bind_eq_ok h
  obtain ⟨cc, hcc, h⟩ := bind_eq_ok h
  obtain ⟨subject, -, h⟩ := bind_eq_ok h
  obtain ⟨text, -, h⟩ := bind_eq_ok h
  obtain ⟨html, -, h⟩ := bind_eq_ok h
  obtain ⟨replyTo, -, h⟩ := bind_eq_ok h
  obtain ⟨headers, -, h⟩ := bind_eq_ok h
  obtain ⟨attachments, -, h⟩ := bind_eq_ok h
  rw [← Except.ok.inj h]
  refine ⟨?_, rfl, rfl⟩
  intro recipient hmem
  rcases List.mem_append.mp hmem with hmem | hmem
  · have hmem : recipient ∈ toAddresses := hmem
    unfold sendTo at hto
    split at hto
    · cases hto
    · rename_i first rest hlist
      obtain rfl := Except.ok.inj hto
      exact addressList_normal l addressParser hlist recipient hmem
    · split at hto
      · cases hto
      · rename_i fallback hfallback
        obtain rfl := Except.ok.inj hto
        obtain ⟨row, hrow, haddress⟩ := fallback_mem hfallback
        rw [List.mem_singleton] at hmem
        rw [hmem]
        show l.normalize fallback.address = fallback.address
        rw [← haddress]
        exact (hlisted row hrow).1
  · exact addressList_normal l addressParser hcc recipient hmem

/-! ### Every call -/

/-- A call that sends: its email is short enough, its user owns an inbox, and its message passed the
    checks. -/
theorem emailSend_cases {config : EmailConfig} {args : SendArgs} {message : OutboundMessage}
    (h : emailSend l sha256Hex addressParser config account moments args = .ok message) :
    ¬254 < utf16Length account.email ∧ ∃ input,
      sendInput l addressParser moments.listed args = .ok input ∧
      sendUserEmail l config account.email account.locals moments.asked input = .ok message := by
  unfold emailSend at h
  split at h
  · cases h
  rename_i begun hbegun
  split at h
  · cases h
  rename_i input hinput
  refine ⟨?_, input, hinput, h⟩
  intro hlong
  have hnormal : normalizeEmailAddress l.toLowerCase account.email = account.email := account.normal
  have hrefused : (!isEmail (normalizeEmailAddress l.toLowerCase account.email) ||
      decide (254 < utf16Length (normalizeEmailAddress l.toLowerCase account.email))) = true := by
    rw [hnormal, decide_eq_true hlong, Bool.or_true]
  unfold emailDestinationBegin at hbegun
  dsimp only at hbegun
  rw [if_pos hrefused] at hbegun
  cases hbegun

/-- **A call of a harmless account is safe.** -/
theorem handed_safe (hharmless : Harmless l domain account) {config : EmailConfig}
    (hconfig : config.domain = domain) (hmoments : moments.Of l sha256Hex account.email)
    {args : SendArgs} {stored : Except Thrown Unit} {domains : List Text} {uuid : Text}
    {options : MailOptions} (h : handed l sha256Hex addressParser config account moments args stored
      domains uuid = some options) : RelaySafe l domain account moments options := by
  unfold handed at h
  split at h
  · rename_i message hmessage
    obtain ⟨hshort, input, hinput, hsend⟩ := emailSend_cases hmessage
    obtain ⟨inbox, hinbox, rfl, -, hallowed⟩ := sendUserEmail_message hsend
    obtain ⟨hnormal, hreply, htrust⟩ :=
      sendInput_normal (hmoments.listed.named account.normal) hinput
    have hlocals : account.locals ≠ [] := List.ne_nil_of_mem hinbox
    have hoptions : buildMailOptions l domains uuid (buildOutboundRequest l
        (outboundMessage config inbox.text input)) = .ok options := by
      cases hbuild : buildMailOptions l domains uuid (buildOutboundRequest l
          (outboundMessage config inbox.text input)) with
      | error e =>
        rw [hbuild] at h
        cases h
      | ok built =>
        rw [hbuild] at h
        rw [Option.some.inj h]
    have hreplied : (outboundMessage config inbox.text input).inReplyTo = none := by
      show input.inReplyTo.bind RepliedMessage.messageId = none
      rw [hreply]
      rfl
    have hreferences : (outboundMessage config inbox.text input).references = [] := by
      unfold outboundMessage
      rw [hreply]
    obtain ⟨hheaders, hthreading⟩ := buildMailOptions_headers hoptions
      (sendHeaders_get? hreplied hreferences (by decide))
      (sendHeaders_get? hreplied hreferences (by decide))
    obtain ⟨sender, hsender, haddress, -⟩ :=
      fromAddress_ok l inbox config.domain (List.mem_singleton.mpr rfl) (some config.fromName)
    have hbody : MailBridge.addressList l [(buildOutboundRequest l
        (outboundMessage config inbox.text input)).fromAddress] = [sender] := hsender
    obtain ⟨hfrom, hto, hcc, -⟩ := buildMailOptions_eq hbody hoptions
    refine ⟨?_, ⟨inbox, hinbox, ?_⟩, ?_, hthreading⟩
    · intro recipient hmem
      have hgiven : ∃ given ∈ input.toAddresses ++ input.cc,
          recipient.address = normalizeAddress l given.address ∧
            MailBridge.isEmailAddress recipient.address = true := by
        rw [hto, hcc] at hmem
        rcases List.mem_append.mp hmem with hmem | hmem
        · obtain ⟨given, hgiven, hread⟩ := mem_addressList l hmem
          exact ⟨given, List.mem_append_left _ hgiven, hread⟩
        · obtain ⟨given, hgiven, hread⟩ := mem_addressList l hmem
          exact ⟨given, List.mem_append_right _ hgiven, hread⟩
      obtain ⟨given, hgiven, hread, hvalid⟩ := hgiven
      obtain ⟨i, hpassed⟩ := hallowed htrust given hgiven
      rw [hread] at hvalid ⊢
      exact permitted_recipient hharmless hshort hlocals hmoments hconfig (hnormal given hgiven)
        hpassed hvalid
    · rw [hfrom, haddress, hconfig]
    · intro entry hentry
      rw [hheaders] at hentry
      exact sendHeaders_allowed hreplied hreferences hentry
  · cases h

/-! ### An account whose email is read differently -/

/-- The table of an account that has only its own email. -/
def ownTable (email : Text) : Destinations := ⟨[verifiedRow email 0 true], List.nodup_singleton _⟩

theorem begin_empty (sha256Hex : Text → Text) (hshort : ¬254 < utf16Length account.email) :
    ∃ result, emailDestinationBegin l.toLowerCase sha256Hex account.email true 0 0 0
      ⟨[], List.nodup_nil⟩ = (.ok result, ownTable account.email) := by
  have hnormal : normalizeEmailAddress l.toLowerCase account.email = account.email := account.normal
  have hpasses : ¬(!isEmail (normalizeEmailAddress l.toLowerCase account.email) ||
      decide (254 < utf16Length (normalizeEmailAddress l.toLowerCase account.email))) = true := by
    rw [hnormal, account.valid, decide_eq_false hshort]
    exact Bool.false_ne_true
  unfold emailDestinationBegin
  dsimp only
  rw [if_neg hpasses, if_pos (Bool.or_true _)]
  have htable : ∀ address, address = account.email →
      (⟨[verifiedRow address 0 true], List.nodup_singleton _⟩ : Destinations) =
        ownTable account.email := by
    rintro address rfl
    rfl
  exact ⟨_, Prod.ext rfl (htable _ hnormal)⟩

theorem tableOf_own (sha256Hex : Text → Text) (hshort : ¬254 < utf16Length account.email) :
    TableOf l sha256Hex account.email (ownTable account.email) := by
  obtain ⟨result, hbegin⟩ := begin_empty sha256Hex hshort
  refine ⟨[.begin account.email true 0 0 0], ?_, ?_⟩
  · intro call hcall
    rw [List.mem_singleton.mp hcall]
    rfl
  · show _ = (emailDestinationBegin l.toLowerCase sha256Hex account.email true 0 0 0
      ⟨[], List.nodup_nil⟩).2
    rw [hbegin]

/-- A short note to the account's own email: no recipient is named. -/
def ownNote : SendArgs where
  toArg := none
  cc := none
  subject := some (.str "Hi")
  text := some (.str "Hi")
  html := none
  fromArg := none
  replyTo := none
  headers := none
  attachments := .ok []

def ownMoments (email : Text) : Moments :=
  ⟨⟨[], List.nodup_nil⟩, ownTable email, fun _ => ownTable email⟩

theorem sendInput_ownNote (email : Text) :
    sendInput l addressParser (ownTable email) ownNote = .ok (noteTo [⟨email, none⟩] []) := by
  have hlist : emailDestinationList (ownTable email) = [rowToDestination (verifiedRow email 0 true)] := by
    unfold emailDestinationList ownTable
    rw [List.mergeSort_singleton]
    rfl
  have hto : sendTo l addressParser (ownTable email) none = .ok [⟨email, none⟩] := by
    show (match fallbackDestination (emailDestinationList (ownTable email)) with
      | none => _
      | some fallback => _) = _
    rw [hlist]
    rfl
  unfold sendInput ownNote
  dsimp only
  rw [hto]
  rfl

/-- An account with an inbox sends a note to its own email. -/
theorem emailSend_ownNote (hshort : ¬254 < utf16Length account.email) {first : InboxLocal}
    {rest : List InboxLocal} (hlocals : account.locals = first :: rest) :
    emailSend l sha256Hex addressParser ⟨domain, "Kody", true⟩ account (ownMoments account.email)
        ownNote =
      .ok (outboundMessage ⟨domain, "Kody", true⟩ first.text (noteTo [⟨account.email, none⟩] [])) := by
  obtain ⟨result, hbegin⟩ := begin_empty sha256Hex hshort
  have hallowed : recipientAllowed l ⟨domain, "Kody", true⟩ account.email (ownTable account.email)
      account.email = true := by
    have hsame : account.email = l.toLowerCase account.email :=
      (l.fixes _ (l.normalize_kept account.normal)).symm
    unfold recipientAllowed
    rw [decide_eq_true hsame, Bool.true_or, Bool.true_or]
  have hchecked : assertRecipients l ⟨domain, "Kody", true⟩ account.email
      (fun _ => ownTable account.email) 0 [⟨account.email, none⟩] = .ok () := by
    rw [assertRecipients, if_pos hallowed]
    rfl
  have howned : ((first :: rest).any fun owned => decide (owned.text = first.text)) = true := by
    rw [List.any_cons, decide_eq_true rfl, Bool.true_or]
  unfold emailSend ownMoments
  rw [hbegin]
  dsimp only
  rw [sendInput_ownNote]
  dsimp only
  unfold sendUserEmail
  rw [hlocals]
  dsimp only [noteTo, Option.getD_none]
  rw [howned, List.append_nil, hchecked]
  rfl

/-- The bridge hands a note to the account's own email to what it reads in that email. -/
theorem handed_ownNote (sha256Hex : Text → Text)
    (addressParser : Text → Option (List ParsedAddress)) (domain : EmailDomain) (hshort : ¬254 < utf16Length account.email) {first : InboxLocal}
    {rest : List InboxLocal} (hlocals : account.locals = first :: rest)
    (hvalid : MailBridge.isEmailAddress (normalizeAddress l account.email) = true) (uuid : Text) :
    ∃ options, handed l sha256Hex addressParser ⟨domain, "Kody", true⟩ account
        (ownMoments account.email) ownNote (.ok ()) [domain.text] uuid = some options ∧
      ⟨normalizeAddress l account.email, none⟩ ∈ options.toAddresses := by
  obtain ⟨sender, hsender, -, haccepts⟩ :=
    fromAddress_ok l first domain (List.mem_singleton.mpr rfl) (some "Kody")
  have hto : MailBridge.addressList l [⟨account.email, none⟩] =
      [⟨normalizeAddress l account.email, none⟩] := by
    apply List.filter_eq_self.mpr
    intro entry hentry
    rw [List.map_singleton, List.mem_singleton] at hentry
    rw [hentry]
    exact hvalid
  have hcount : (MailBridge.addressList l [⟨account.email, none⟩]).length +
      (MailBridge.addressList l []).length = 1 := by
    rw [hto]
    rfl
  have hbody : MailBridge.addressList l [(buildOutboundRequest l (outboundMessage
      ⟨domain, "Kody", true⟩ first.text (noteTo [⟨account.email, none⟩] []))).fromAddress] =
      [sender] := hsender
  obtain ⟨options, hoptions⟩ := buildMailOptions_ok uuid hbody haccepts
    (ne_of_eq_of_ne hcount Nat.one_ne_zero) (le_of_eq_of_le hcount (by decide))
  refine ⟨options, ?_, ?_⟩
  · unfold handed
    rw [emailSend_ownNote hshort hlocals]
    dsimp only
    rw [hoptions]
    rfl
  · rw [(buildMailOptions_eq hbody hoptions).2.1]
    show _ ∈ MailBridge.addressList l [⟨account.email, none⟩]
    rw [hto]
    exact List.mem_singleton.mpr rfl

/-- The account's own table verifies no address but its email. -/
theorem verified_own {address : Text} (hnormal : l.normalize address = address)
    (h : emailDestinationIsVerified l address (ownTable account.email) = true) :
    address = account.email := by
  unfold emailDestinationIsVerified at h
  cases hrow : (ownTable account.email).find? (normalizeEmailAddress l.toLowerCase address) with
  | none =>
    rw [hrow] at h
    cases h
  | some row =>
    obtain ⟨hmem, haddress⟩ := Rows.find?_eq_some.mp hrow
    rw [List.mem_singleton.mp hmem] at haddress
    exact (haddress.trans hnormal).symm

/-- **No open relay**: every call of an account is safe exactly when its email is harmless. -/
theorem no_relay (l : LowerCase) (sha256Hex : Text → Text) (domain : EmailDomain)
    (account : Account l) :
    (∀ (config : EmailConfig) (addressParser : Text → Option (List ParsedAddress))
        (moments : Moments) (args : SendArgs) (stored : Except Thrown Unit) (domains : List Text)
        (uuid : Text) (options : MailOptions), config.domain = domain →
        moments.Of l sha256Hex account.email →
        handed l sha256Hex addressParser config account moments args stored domains uuid =
          some options →
        RelaySafe l domain account moments options) ↔
      Harmless l domain account := by
  constructor
  · intro hsafe
    by_contra hharmful
    unfold Harmless at hharmful
    push Not at hharmful
    obtain ⟨hshort, hinbox, hchanged, hread, hforeign⟩ := hharmful
    obtain ⟨first, rest, hlocals⟩ := List.exists_cons_of_ne_nil hinbox
    have hvalid : MailBridge.isEmailAddress (normalizeAddress l account.email) = true := by
      rwa [ne_eq, Bool.not_eq_false] at hread
    obtain ⟨options, hhanded, hmem⟩ := handed_ownNote sha256Hex (fun _ => none) domain (Nat.not_lt.mpr hshort) hlocals hvalid []
    have hown := tableOf_own sha256Hex (Nat.not_lt.mpr hshort)
    have hmoments : (ownMoments account.email).Of l sha256Hex account.email :=
      ⟨⟨[], fun call hcall => absurd hcall List.not_mem_nil, rfl⟩, hown, fun _ => hown⟩
    have hpermitted := (hsafe _ _ _ _ _ _ _ _ rfl hmoments hhanded).recipients _
      (List.mem_append_left _ hmem)
    rcases hpermitted with hemail | ⟨name, hdomain⟩ | ⟨i, hverified⟩
    · exact hchanged hemail
    · apply hforeign
      unfold hostOf
      rw [hdomain]
    · -- what the bridge reads is in lower case, and has no space
      have hstrip := normalizeAddress_strip l account.normal
      have hnormal : l.normalize (normalizeAddress l account.email) =
          normalizeAddress l account.email := by
        have hspace := isEmail_spaceless
          (Bool.and_eq_true_iff.mp (Bool.and_eq_true_iff.mp hvalid).1).1
        unfold LowerCase.normalize
        rw [trim_of_spaceless hspace, hstrip]
        exact l.fixes _ fun c hc => l.normalize_kept account.normal c (stripAngles_subset _ hc)
      exact hchanged (verified_own hnormal hverified)
  · intro hharmless config addressParser moments args stored domains uuid options hconfig hmoments
      hhanded
    exact handed_safe hharmless hconfig hmoments hhanded

end

/-! ### A relayed message -/

/-- An account whose email has angle brackets around it, as `createUser` admits it. -/
def bracketAccount : Account asciiLowerCase where
  email := "<victim@far.test>"
  normal := by decide
  valid := by decide
  locals := [bobInbox]

/-- A note of that account goes to an address that is neither its email nor on the domain nor
    verified. -/
theorem relayed :
    (ownMoments bracketAccount.email).Of asciiLowerCase id bracketAccount.email ∧
    ∃ options, handed asciiLowerCase id (fun _ => none) kodyConfig bracketAccount
        (ownMoments bracketAccount.email) ownNote (.ok ()) ["kody.test"] "0" = some options ∧
      ⟨"victim@far.test", none⟩ ∈ options.toAddresses ∧
      ¬Permitted asciiLowerCase kodyDomain bracketAccount (ownMoments bracketAccount.email)
        "victim@far.test" := by
  have hshort : ¬254 < utf16Length bracketAccount.email := by decide
  have hown := tableOf_own id hshort
  obtain ⟨options, hhanded, hmem⟩ := handed_ownNote id (fun _ => none) kodyDomain hshort
    (rfl : bracketAccount.locals = bobInbox :: []) (by decide) "0"
  refine ⟨⟨⟨[], fun call hcall => absurd hcall List.not_mem_nil, rfl⟩, hown, fun _ => hown⟩,
    options, hhanded, hmem, ?_⟩
  rintro (hemail | ⟨name, hdomain⟩ | ⟨i, hverified⟩)
  · exact absurd hemail (by decide)
  · have hhost := (Prod.mk.inj (Option.some.inj hdomain)).2
    exact absurd hhost (by decide)
  · have hsame : ("victim@far.test" : Text) = bracketAccount.email :=
      verified_own (by decide) hverified
    exact absurd hsame (by decide)

end KodyCelld.Email
