import KodyCelld.Email.Addresses
import KodyCelld.Email.Messages
import KodyCelld.OAuth.Protocol

namespace KodyCelld.MailBridge

open KodyCelld.Lib
open KodyCelld.Email (EmailAddress EmailAttachmentMeta EmailDomain InboxLocal emailPattern
  isMailChar_toNat isMailChar_marks inboxAddress_ok)
open KodyCelld.OAuth (cutTo)

/-!
# The mail bridge (`mail-bridge/lib.mjs`)

The sidecar that speaks SMTP.  It normalises every address that it is given, drops those that are
none, and refuses messages from other domains.

* `normalizeAddress`, `isEmailAddress`, `acceptsRecipient`, `addressList` — its addresses;
* `buildMailOptions` — the options of the transport from the body of a request;
* `smtpReplyFor` — the reply to a sender from the answer of Kody;
* `fromAddress_ok` — the address of an inbox is accepted as a sender;
* `addressList_eq` — when a list of addresses is handed on as it is.
-/

/-- The sender's and recipients' part of a body that is posted to `/send`. -/
structure SendBody where
  fromAddress : EmailAddress
  toAddresses : List EmailAddress
  cc : List EmailAddress
  replyTo : List EmailAddress
  subject : Text
  text : Option Text
  html : Option Text
  headers : Obj Text
  attachments : List (EmailAttachmentMeta × Text)

/-- An attachment for the transport; its content is kept in base64. -/
structure MailAttachment where
  filename : Text
  contentBase64 : Text
  contentType : Text
  cid : Option Text
  inline : Bool
  deriving DecidableEq, Repr

/-- The options of the transport. -/
structure MailOptions where
  fromAddress : EmailAddress
  toAddresses : List EmailAddress
  cc : List EmailAddress
  replyTo : List EmailAddress
  subject : Text
  headers : Obj Text
  messageId : Text
  attachments : List MailAttachment
  text : Option Text
  html : Option Text
  inReplyTo : Option Text
  references : Option Text
  deriving DecidableEq

def isEmailAddress (value : Text) : Bool := emailPattern value && decide (utf16Length value ≤ 320)

/-- Strips angle brackets so Kody sees the same id it stores. -/
def bareMessageId (messageId : Text) : Text := stripAngles messageId

section
variable (l : LowerCase)

def normalizeAddress (value : Text) : Text := l.toLowerCase (stripAngles (trim value))

/-- `normalized.slice(normalized.lastIndexOf('@') + 1)` -/
def hostOf (address : Text) : Text :=
  match splitLast '@' address with
  | some (_, host) => host
  | none => address

/-- Does this RCPT TO belong to one of our domains? -/
def acceptsRecipient (domains : List Text) (address : Text) : Bool :=
  let normalized := normalizeAddress l address
  isEmailAddress normalized && decide (hostOf normalized ∈ domains)

/-- One entry of a list of addresses. -/
def normalizeEntry (entry : EmailAddress) : EmailAddress :=
  ⟨normalizeAddress l entry.address, (entry.name.map trim).filter fun name => !name.isEmpty⟩

def addressList (value : List EmailAddress) : List EmailAddress :=
  (value.map (normalizeEntry l)).filter fun entry => isEmailAddress entry.address

/-! ### Options of the transport -/

/-- `/[\r\n]/` -/
def isLineBreak (c : Char) : Bool := decide (c = '\r' ∨ c = '\n')

/-- `value.replace(/[\r\n]+/g, ' ')` -/
def oneLine : Text → Text
  | [] => []
  | [c] => if isLineBreak c then [' '] else [c]
  | c :: d :: rest =>
    if isLineBreak c then
      if isLineBreak d then oneLine (d :: rest) else ' ' :: oneLine (d :: rest)
    else c :: oneLine (d :: rest)

def forbiddenOutboundHeaders : List Text :=
  ["from", "to", "cc", "bcc", "subject", "date", "message-id", "content-type",
    "content-transfer-encoding", "mime-version", "return-path", "received", "dkim-signature"]

/-- `/^[a-z0-9-]+$/i` -/
def headerNamePattern (key : Text) : Bool :=
  !key.isEmpty && key.all fun c => isLetter c || isDigit c || decide (c = '-')

/-- The headers that are handed on, each under its name in lower case. -/
def sendHeaders (headers : List (Text × Text)) : Obj Text :=
  headers.foldl
    (fun out (name, value) =>
      let key := l.toLowerCase name
      if !headerNamePattern key || decide (key ∈ forbiddenOutboundHeaders) then out
      else if value.any isLineBreak then out
      else out.set key (cutTo 2000 value))
    .empty

/-- `delete headers[key]` -/
def without (headers : Obj Text) (key : Text) : Obj Text :=
  ⟨headers.entries.filter fun entry => decide (entry.1 ≠ key),
    headers.nodup.sublist (List.filter_sublist.map Prod.fst)⟩

/-- A header that is moved to an option of its own, if it is not empty. -/
def movedHeader (headers : Obj Text) (key : Text) : Option Text × Obj Text :=
  match (headers.get? key).filter fun value => !value.isEmpty with
  | some value => (some value, without headers key)
  | none => (none, headers)

def mailAttachment (index : ℕ) (attachment : EmailAttachmentMeta × Text) : MailAttachment :=
  let filename := attachment.1.filename.map fun c =>
    if c ∈ ['\\', '/', '\r', '\n'] then '_' else c
  { filename := if filename.isEmpty then "attachment-" ++ natText (index + 1) else filename
    contentBase64 := attachment.2, contentType := attachment.1.contentType
    cid := attachment.1.contentId.filter fun id => !id.isEmpty, inline := attachment.1.inline }

/-- Turns the body Kody's bridge adapter posts to /send into mail options, with the id that is
    drawn. -/
def buildMailOptions (domains : List Text) (uuid : Text) (body : SendBody) :
    Except Thrown MailOptions :=
  match addressList l [body.fromAddress] with
  | [] => .error (.error "from is required.")
  | sender :: _ =>
    if !acceptsRecipient l domains sender.address then
      .error (.error ("from must be an address on " ++ [',', ' '].intercalate domains ++ "."))
    else
      let toAddresses := addressList l body.toAddresses
      let cc := addressList l body.cc
      if toAddresses.length + cc.length = 0 then .error (.error "At least one recipient is required.")
      else if 50 < toAddresses.length + cc.length then
        .error (.error "At most 50 recipients per message.")
      else
        let (inReplyTo, headers) := movedHeader (sendHeaders l body.headers.entries) "in-reply-to"
        let (references, headers) := movedHeader headers "references"
        .ok
          { fromAddress := sender, toAddresses := toAddresses, cc := cc
            replyTo := addressList l body.replyTo
            subject := cutTo 998 (oneLine body.subject), headers := headers
            messageId := '<' :: uuid ++ '@' :: hostOf sender.address ++ ['>']
            attachments := body.attachments.mapIdx mailAttachment
            text := if body.text = none ∧ body.html = none then some [] else body.text
            html := body.html, inReplyTo := inReplyTo, references := references }

end

/-! ### Replies to senders -/

/-- Maps Kody's inbound HTTP response to an SMTP reply the sender understands. -/
def smtpReplyFor (status : ℕ) (detail : Text) : ℕ × Text :=
  if 200 ≤ status ∧ status < 300 then (250, "OK: queued for Kody")
  else if status = 404 then (550, "5.1.1 No such Kody inbox")
  else if status = 413 then (552, "5.3.4 Message too large for Kody")
  else if status = 429 then (452, "4.2.2 Inbox over quota, try later")
  else if status = 400 ∨ status = 422 then
    (554, ("5.6.0 Rejected by Kody" : Text) ++
      if detail.isEmpty then [] else (": " : Text) ++ detail)
  else (451, "4.3.0 Kody is temporarily unavailable, try later")

/-- A sender is told that its message was taken over exactly when Kody answers so. -/
theorem smtpReplyFor_accepted {status : ℕ} {detail : Text} :
    (smtpReplyFor status detail).1 = 250 ↔ 200 ≤ status ∧ status < 300 := by
  unfold smtpReplyFor
  split_ifs with hok
  · exact ⟨fun _ => hok, fun _ => rfl⟩
  all_goals
    constructor
    · intro h
      simp at h
    · intro h
      exact absurd h hok

/-! ### Addresses that stay as they are -/

section
variable (l : LowerCase)

/-- What the bridge makes of a trimmed address in lower case is part of it. -/
theorem normalizeAddress_strip {address : Text} (hnormal : l.normalize address = address) :
    normalizeAddress l address = stripAngles address := by
  have htrim : trim address = address := by
    rw [← hnormal]
    exact l.trim_normalize address
  rw [normalizeAddress, htrim]
  exact l.fixes _ fun c hc => l.normalize_kept hnormal c (stripAngles_subset _ hc)

theorem mem_addressList {value : List EmailAddress} {entry : EmailAddress}
    (h : entry ∈ addressList l value) :
    ∃ given ∈ value, entry.address = normalizeAddress l given.address ∧
      isEmailAddress entry.address = true := by
  obtain ⟨hmem, hvalid⟩ := List.mem_filter.mp h
  obtain ⟨given, hgiven, rfl⟩ := List.mem_map.mp hmem
  exact ⟨given, hgiven, rfl, hvalid⟩

/-- **A list is handed on as it is** exactly when each of its addresses is one for the bridge, as it
    stands. -/
theorem addressList_eq {value : List EmailAddress} :
    (addressList l value).map EmailAddress.address = value.map EmailAddress.address ↔
      ∀ entry ∈ value, normalizeAddress l entry.address = entry.address ∧
        isEmailAddress entry.address = true := by
  constructor
  · intro h
    -- nothing was filtered out, since the lists have one length
    have hlength : (addressList l value).length = (value.map (normalizeEntry l)).length := by
      have hmapped := congrArg List.length h
      rw [List.length_map, List.length_map] at hmapped
      rw [hmapped, List.length_map]
    have hall : addressList l value = value.map (normalizeEntry l) :=
      List.filter_sublist.eq_of_length hlength
    intro entry hentry
    have hkept : normalizeEntry l entry ∈ addressList l value := by
      rw [hall]
      exact List.mem_map_of_mem hentry
    have hvalid := (List.mem_filter.mp hkept).2
    rw [hall, List.map_map] at h
    have hsame : normalizeAddress l entry.address = entry.address :=
      List.map_eq_map_iff.mp h entry hentry
    refine ⟨hsame, ?_⟩
    rw [← hsame]
    exact hvalid
  · intro h
    have hall : addressList l value = value.map (normalizeEntry l) := by
      apply List.filter_eq_self.mpr
      intro entry hentry
      obtain ⟨given, hgiven, rfl⟩ := List.mem_map.mp hentry
      obtain ⟨hsame, hvalid⟩ := h given hgiven
      show isEmailAddress (normalizeAddress l given.address) = true
      rw [hsame]
      exact hvalid
    rw [hall, List.map_map]
    exact List.map_congr_left fun entry hentry => (h entry hentry).1

/-! ### The sender -/

theorem utf16Length_ascii {text : Text} (h : ∀ c ∈ text, c.toNat < 128) :
    utf16Length text = text.length := by
  induction text with
  | nil => rfl
  | cons c rest ih =>
    obtain ⟨hc, hrest⟩ := List.forall_mem_cons.mp h
    have hunits : (if 0x10000 ≤ c.toNat then 2 else 1) = 1 := if_neg (by omega)
    have hcons : utf16Length (c :: rest) = (if 0x10000 ≤ c.toNat then 2 else 1) + utf16Length rest :=
      List.sum_cons
    rw [hcons, hunits, ih hrest, List.length_cons, Nat.add_comm]

/-- **The address of an inbox** stays as it is, and is accepted where its domain is served. -/
theorem fromAddress_ok (inbox : InboxLocal) (domain : EmailDomain) {domains : List Text}
    (hserved : domain.text ∈ domains) (name : Option Text) :
    ∃ sender, addressList l [⟨inbox.text ++ '@' :: domain.text, name⟩] = [sender] ∧
      sender.address = inbox.text ++ '@' :: domain.text ∧
      acceptsRecipient l domains sender.address = true := by
  have hplain : ∀ c ∈ inbox.text ++ '@' :: domain.text,
      c.toNat < 128 ∧ ¬('A' ≤ c ∧ c ≤ 'Z') ∧ c ≠ '<' ∧ c ≠ '>' ∧ isSpace c = false := by
    intro c hc
    rcases List.mem_append.mp hc with hc | hc
    · have hmail := inbox.mailChars c hc
      obtain ⟨-, hopen, hclose, hspace⟩ := isMailChar_marks hmail
      exact ⟨(isMailChar_toNat hmail).1, (isMailChar_toNat hmail).2, hopen, hclose, hspace⟩
    · rcases List.mem_cons.mp hc with rfl | hc
      · decide
      · have hmail := domain.mailChars c hc
        obtain ⟨-, hopen, hclose, hspace⟩ := isMailChar_marks hmail
        exact ⟨(isMailChar_toNat hmail).1, (isMailChar_toNat hmail).2, hopen, hclose, hspace⟩
  obtain ⟨hpattern, hlength⟩ := inboxAddress_ok inbox domain
  generalize haddress : inbox.text ++ '@' :: domain.text = address at *
  have hsame : normalizeAddress l address = address := by
    rw [normalizeAddress, trim_of_spaceless fun c hc => (hplain c hc).2.2.2.2,
      stripAngles_of_not_mem (fun h => (hplain _ h).2.2.1 rfl) (fun h => (hplain _ h).2.2.2.1 rfl)]
    exact l.fixes _ fun c hc => l.ascii c (hplain c hc).1 (hplain c hc).2.1
  have hvalid : isEmailAddress address = true := by
    rw [isEmailAddress, hpattern, utf16Length_ascii fun c hc => (hplain c hc).1, Bool.true_and,
      decide_eq_true_eq]
    omega
  have hhost : hostOf address = domain.text := by
    rw [hostOf, ← haddress, splitLast_append fun h => (isMailChar_marks (domain.mailChars _ h)).1 rfl]
  refine ⟨normalizeEntry l ⟨address, name⟩, ?_, hsame, ?_⟩
  · show List.filter _ [normalizeEntry l ⟨address, name⟩] = _
    apply List.filter_eq_self.mpr
    intro entry hentry
    rw [List.mem_singleton] at hentry
    rw [hentry]
    show isEmailAddress (normalizeAddress l address) = true
    rw [hsame]
    exact hvalid
  · show acceptsRecipient l domains (normalizeAddress l address) = true
    rw [hsame]
    simp only [acceptsRecipient]
    rw [hsame, hvalid, hhost, Bool.true_and, decide_eq_true_eq]
    exact hserved

end

end KodyCelld.MailBridge
