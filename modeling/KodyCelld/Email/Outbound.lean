import KodyCelld.MailBridge.MailOptions

namespace KodyCelld.Email

open KodyCelld.Lib
open KodyCelld.MailBridge (MailOptions SendBody buildMailOptions normalizeAddress addressList_eq
  fromAddress_ok oneLine isLineBreak)
open KodyCelld.OAuth (cutTo)

/-!
# Sending mail (`email/service.ts`, `email/outbound.ts`)

A message is checked, stored and posted to the mail bridge, which checks it again with its own limits
and its own grammar of addresses.

* `sendUserEmail` — the checks before a message is stored, and the message;
* `buildOutboundRequest` — the body that is posted to the bridge;
* `sendUserEmail_message` — what a message that passes the checks has as sender and recipients;
* `bridge_agrees` — the bridge takes a message as it was recorded exactly when it has at most 50
  recipients, each an address for the bridge as it stands;
* `bridge_disagrees` — two messages that pass Kody's checks and that the bridge does not take so.
-/

/-- What the send path reads of the configuration. -/
structure EmailConfig where
  domain : EmailDomain
  fromName : Text
  outbound : Bool

/-- The stored message that is replied to. -/
structure RepliedMessage where
  id : Text
  messageId : Option Text
  references : List Text
  deriving DecidableEq, Repr

structure SendInput where
  toAddresses : List EmailAddress
  cc : List EmailAddress
  subject : Text
  text : Option Text
  html : Option Text
  fromLocal : Option Text
  replyTo : List EmailAddress
  headers : Obj Text
  attachments : List (EmailAttachmentMeta × Text)
  inReplyTo : Option RepliedMessage
  packageName : Option Text
  trustRecipients : Bool

structure OutboundMessage where
  fromAddress : EmailAddress
  toAddresses : List EmailAddress
  cc : List EmailAddress
  replyTo : List EmailAddress
  subject : Text
  text : Option Text
  html : Option Text
  headers : Obj Text
  inReplyTo : Option Text
  references : List Text
  attachments : List (EmailAttachmentMeta × Text)

section
variable (l : LowerCase)

def emailDestinationIsVerified (address : Text) (table : Destinations) : Bool :=
  (table.find? (normalizeEmailAddress l.toLowerCase address)).any EmailDestination.verified

/-- Whether a recipient is the account's email, on the domain, or verified in the table. -/
def recipientAllowed (config : EmailConfig) (email : Text) (table : Destinations)
    (address : Text) : Bool :=
  decide (address = l.toLowerCase email) ||
    (splitInboxAddress l address config.domain.text).isSome ||
    emailDestinationIsVerified l address table

/-- The recipients are checked one after the other; the table is the one at the time of each check. -/
def assertRecipients (config : EmailConfig) (email : Text) (asked : ℕ → Destinations) :
    ℕ → List EmailAddress → Except Thrown Unit
  | _, [] => .ok ()
  | k, recipient :: rest =>
    if recipientAllowed l config email (asked k) recipient.address then
      assertRecipients config email asked (k + 1) rest
    else
      .error (.kody "email_destination_unverified"
        ("\"" ++ recipient.address ++ "\" is not a verified destination. Add it with " ++
          "emailDestinationAdd and confirm the code with emailDestinationVerify.") 403)

/-- The message that is stored and posted. -/
def outboundMessage (config : EmailConfig) (inbox : Text) (input : SendInput) : OutboundMessage where
  fromAddress := ⟨inbox ++ '@' :: config.domain.text, some config.fromName⟩
  toAddresses := input.toAddresses
  cc := input.cc
  replyTo := input.replyTo
  subject := input.subject
  text := input.text
  html := input.html
  headers := input.headers
  inReplyTo := input.inReplyTo.bind RepliedMessage.messageId
  references := match input.inReplyTo with
    | none => []
    | some replied => replied.references ++ (orNull replied.messageId).toList
  attachments := input.attachments

/-- `sendUserEmail` up to the message that it stores; `locals` are the user's inboxes. -/
def sendUserEmail (config : EmailConfig) (email : Text) (locals : List InboxLocal)
    (asked : ℕ → Destinations) (input : SendInput) : Except Thrown OutboundMessage :=
  if config.outbound = false then
    .error (.kody "email_outbound_not_configured"
      ("No outbound email adapter: set KODY_EMAIL_OUTBOUND_PROVIDER=bridge with " ++
        "KODY_EMAIL_OUTBOUND_URL and KODY_EMAIL_OUTBOUND_TOKEN.") 501)
  else match locals with
    | [] => .error (.kody "email_no_inbox"
        "Claim an inbox address first (emailInboxClaim) to send email." 409)
    | first :: _ =>
      let inbox := input.fromLocal.getD first.text
      if !locals.any fun owned => decide (owned.text = inbox) then
        .error (.kody "email_inbox_not_owned"
          ("\"" ++ inbox ++ "@" ++ config.domain.text ++ "\" is not one of your inbox addresses.") 403)
      else if input.toAddresses.isEmpty then
        .error (.kody "invalid_args" "At least one recipient is required.")
      else if input.text = none ∧ input.html = none then
        .error (.kody "invalid_args" "Provide text and/or html.")
      else if input.trustRecipients then .ok (outboundMessage config inbox input)
      else match assertRecipients l config email asked 0 (input.toAddresses ++ input.cc) with
        | .error e => .error e
        | .ok () => .ok (outboundMessage config inbox input)

/-! ### The request to the bridge -/

/-- Headers a package may set on outbound mail; anything else is dropped. -/
def allowedOutboundHeaders : List Text :=
  ["x-entity-ref-id", "x-kody-tag", "list-unsubscribe", "precedence", "auto-submitted"]

def customHeaders (message : OutboundMessage) : Obj Text :=
  let out := message.headers.entries.foldl
    (fun (out : Obj Text) (name, value) =>
      let key := l.toLowerCase name
      if key ∈ allowedOutboundHeaders then out.set key value else out)
    .empty
  let out := match orNull message.inReplyTo with
    | some id => out.set "in-reply-to" ('<' :: id ++ ['>'])
    | none => out
  if message.references.isEmpty then out
  else out.set "references" ([' '].intercalate (message.references.map fun id => '<' :: id ++ ['>']))

/-- Builds the mail-bridge HTTP request: its JSON body, as the bridge reads it. -/
def buildOutboundRequest (message : OutboundMessage) : SendBody where
  fromAddress := message.fromAddress
  toAddresses := message.toAddresses
  cc := message.cc
  replyTo := message.replyTo
  subject := message.subject
  text := message.text
  html := message.html
  headers := customHeaders l message
  attachments := message.attachments

/-! ### What passes the checks -/

variable {l} {config : EmailConfig} {email : Text} {locals : List InboxLocal}
  {asked : ℕ → Destinations} {input : SendInput} {message : OutboundMessage}

theorem assertRecipients_ok {k : ℕ} {recipients : List EmailAddress}
    (h : assertRecipients l config email asked k recipients = .ok ()) :
    ∀ recipient ∈ recipients, ∃ i, recipientAllowed l config email (asked i) recipient.address = true := by
  induction recipients generalizing k with
  | nil =>
    intro recipient hmem
    exact absurd hmem List.not_mem_nil
  | cons first rest ih =>
    rw [assertRecipients] at h
    split at h
    · rename_i hallowed
      intro recipient hmem
      rcases List.mem_cons.mp hmem with rfl | hrest
      · exact ⟨k, hallowed⟩
      · exact ih h recipient hrest
    · cases h

/-- **A message that passes the checks** comes from one of the user's inboxes, has a recipient and a
    body, and each recipient was allowed when it was checked, unless they are trusted. -/
theorem sendUserEmail_message (h : sendUserEmail l config email locals asked input = .ok message) :
    ∃ inbox ∈ locals, message = outboundMessage config inbox.text input ∧
      input.toAddresses ≠ [] ∧
      (input.trustRecipients = false → ∀ recipient ∈ input.toAddresses ++ input.cc,
        ∃ i, recipientAllowed l config email (asked i) recipient.address = true) := by
  unfold sendUserEmail at h
  split at h
  · cases h
  split at h
  · cases h
  rename_i first rest
  dsimp only at h
  split at h
  · cases h
  rename_i howned
  split at h
  · cases h
  rename_i hempty
  split at h
  · cases h
  have hinbox : ∃ inbox ∈ first :: rest, inbox.text = input.fromLocal.getD first.text := by
    rw [Bool.not_eq_true', Bool.not_eq_false, List.any_eq_true] at howned
    obtain ⟨inbox, hmem, htext⟩ := howned
    exact ⟨inbox, hmem, of_decide_eq_true htext⟩
  have hsome : input.toAddresses ≠ [] := by
    rintro hnil
    exact hempty (hnil ▸ rfl)
  obtain ⟨inbox, hmem, htext⟩ := hinbox
  split at h
  · rename_i htrusted
    refine ⟨inbox, hmem, ?_, hsome, ?_⟩
    · rw [htext, Except.ok.inj h]
    · intro hchecked
      rw [htrusted] at hchecked
      cases hchecked
  · split at h
    · cases h
    · rename_i hrecipients
      refine ⟨inbox, hmem, ?_, hsome, fun _ => assertRecipients_ok hrecipients⟩
      rw [htext, Except.ok.inj h]

/-! ### Agreement with the bridge -/

/-- **What the bridge hands on**: the sender, which it accepts, and the lists as it normalises them,
    with one to 50 recipients. -/
theorem buildMailOptions_eq {domains : List Text} {uuid : Text} {body : SendBody}
    {sender : EmailAddress} (hsender : MailBridge.addressList l [body.fromAddress] = [sender])
    {options : MailOptions} (h : buildMailOptions l domains uuid body = .ok options) :
    options.fromAddress = sender ∧
      options.toAddresses = MailBridge.addressList l body.toAddresses ∧
      options.cc = MailBridge.addressList l body.cc ∧
      (options.toAddresses.length + options.cc.length ≠ 0 ∧
        options.toAddresses.length + options.cc.length ≤ 50) := by
  unfold buildMailOptions at h
  rw [hsender] at h
  dsimp only at h
  split at h
  · cases h
  split at h
  · cases h
  rename_i hsome
  split at h
  · cases h
  rename_i hfew
  rw [← Except.ok.inj h]
  exact ⟨rfl, rfl, rfl, hsome, Nat.le_of_not_lt hfew⟩

theorem buildMailOptions_ok {domains : List Text} (uuid : Text) {body : SendBody}
    {sender : EmailAddress} (hsender : MailBridge.addressList l [body.fromAddress] = [sender])
    (haccepts : MailBridge.acceptsRecipient l domains sender.address = true)
    (hsome : (MailBridge.addressList l body.toAddresses).length +
      (MailBridge.addressList l body.cc).length ≠ 0)
    (hfew : (MailBridge.addressList l body.toAddresses).length +
      (MailBridge.addressList l body.cc).length ≤ 50) :
    ∃ options, buildMailOptions l domains uuid body = .ok options := by
  unfold buildMailOptions
  rw [hsender]
  dsimp only
  rw [haccepts]
  simp only [Bool.not_true, Bool.false_eq_true, if_false]
  rw [if_neg hsome, if_neg (Nat.not_lt.mpr hfew)]
  exact ⟨_, rfl⟩

/-- Headers without the two that get options of their own are handed on as they are. -/
theorem buildMailOptions_headers {domains : List Text} {uuid : Text} {body : SendBody}
    {options : MailOptions} (h : buildMailOptions l domains uuid body = .ok options)
    (hreply : (MailBridge.sendHeaders l body.headers.entries).get? "in-reply-to" = none)
    (hreferences : (MailBridge.sendHeaders l body.headers.entries).get? "references" = none) :
    options.headers = MailBridge.sendHeaders l body.headers.entries ∧
      options.inReplyTo = none ∧ options.references = none := by
  have hmoved : ∀ {headers : Obj Text} {key : Text}, headers.get? key = none →
      MailBridge.movedHeader headers key = (none, headers) := by
    intro headers key hnone
    unfold MailBridge.movedHeader
    rw [hnone]
    rfl
  unfold buildMailOptions at h
  rw [hmoved hreply] at h
  dsimp only at h
  rw [hmoved hreferences] at h
  split at h
  · cases h
  split at h
  · cases h
  split at h
  · cases h
  split at h
  · cases h
  rw [← Except.ok.inj h]
  exact ⟨rfl, rfl, rfl⟩

/-- **Kody and the bridge agree** on a message that passes Kody's checks, where the bridge serves the
    domain, exactly when the message has at most 50 recipients in all and each recorded address is an
    address for the bridge, as it stands. -/
theorem bridge_agrees {domains : List Text} {uuid : Text}
    (h : sendUserEmail l config email locals asked input = .ok message)
    (hserved : config.domain.text ∈ domains) :
    (∃ options, buildMailOptions l domains uuid (buildOutboundRequest l message) = .ok options ∧
        options.toAddresses.map EmailAddress.address = message.toAddresses.map EmailAddress.address ∧
        options.cc.map EmailAddress.address = message.cc.map EmailAddress.address) ↔
      message.toAddresses.length + message.cc.length ≤ 50 ∧
        ∀ recipient ∈ message.toAddresses ++ message.cc,
          normalizeAddress l recipient.address = recipient.address ∧
            MailBridge.isEmailAddress recipient.address = true := by
  obtain ⟨inbox, -, hmessage, hto, -⟩ := sendUserEmail_message h
  obtain ⟨sender, hsender, -, haccepts⟩ :=
    fromAddress_ok l inbox config.domain hserved (some config.fromName)
  have hbody : MailBridge.addressList l [(buildOutboundRequest l message).fromAddress] = [sender] := by
    rw [hmessage]
    exact hsender
  have hlength : ∀ {given : List EmailAddress},
      (MailBridge.addressList l given).map EmailAddress.address = given.map EmailAddress.address →
      (MailBridge.addressList l given).length = given.length := by
    intro given hsame
    have hmapped := congrArg List.length hsame
    rwa [List.length_map, List.length_map] at hmapped
  constructor
  · rintro ⟨options, hoptions, hsameTo, hsameCc⟩
    obtain ⟨-, htoEq, hccEq, -, hfew⟩ := buildMailOptions_eq hbody hoptions
    rw [htoEq] at hsameTo hfew
    rw [hccEq] at hsameCc hfew
    constructor
    · rw [hlength hsameTo, hlength hsameCc] at hfew
      exact hfew
    · intro recipient hmem
      rcases List.mem_append.mp hmem with hmem | hmem
      · exact (addressList_eq l).mp hsameTo recipient hmem
      · exact (addressList_eq l).mp hsameCc recipient hmem
  · rintro ⟨hfew, hvalid⟩
    have hsameTo := (addressList_eq l).mpr
      fun recipient hmem => hvalid recipient (List.mem_append_left _ hmem)
    have hsameCc := (addressList_eq l).mpr
      fun recipient hmem => hvalid recipient (List.mem_append_right _ hmem)
    have hpos : 0 < message.toAddresses.length := by
      rw [hmessage]
      exact List.length_pos_iff.mpr hto
    have hlengthTo := hlength hsameTo
    have hlengthCc := hlength hsameCc
    obtain ⟨options, hoptions⟩ := buildMailOptions_ok uuid hbody haccepts
      (by
        show (MailBridge.addressList l message.toAddresses).length +
          (MailBridge.addressList l message.cc).length ≠ 0
        omega)
      (by
        show (MailBridge.addressList l message.toAddresses).length +
          (MailBridge.addressList l message.cc).length ≤ 50
        omega)
    obtain ⟨-, htoEq, hccEq, -⟩ := buildMailOptions_eq hbody hoptions
    refine ⟨options, hoptions, ?_, ?_⟩
    · rw [htoEq]
      exact hsameTo
    · rw [hccEq]
      exact hsameCc

end

/-! ### One recipient more -/

def kodyDomain : EmailDomain := ⟨"kody.test", by decide⟩

def kodyConfig : EmailConfig := ⟨kodyDomain, "Kody", true⟩

def bobInbox : InboxLocal := ⟨"bob", "u1", by decide⟩

def bobAddress : EmailAddress := ⟨"bob@kody.test", none⟩

/-- A note to this many addresses, all of an inbox of the sender, and copies to others. -/
def noteTo (toAddresses cc : List EmailAddress) : SendInput where
  toAddresses := toAddresses
  cc := cc
  subject := "Hi"
  text := some "Hi"
  html := none
  fromLocal := none
  replyTo := []
  headers := .empty
  attachments := []
  inReplyTo := none
  packageName := none
  trustRecipients := false

def noDestinations : ℕ → Destinations := fun _ => ⟨[], List.nodup_nil⟩

def crowd : SendInput := noteTo (List.replicate 50 bobAddress) [bobAddress]

/-- Two recipients on the domain, one of them with a blank in its name. -/
def blankName : SendInput := noteTo [bobAddress, ⟨"b ob@kody.test", none⟩] []

def bobMessage (input : SendInput) : OutboundMessage := outboundMessage kodyConfig "bob" input

/-- What the bridge makes of the message of a note. -/
def posted (input : SendInput) : Except Thrown MailOptions :=
  buildMailOptions asciiLowerCase ["kody.test"] "0" (buildOutboundRequest asciiLowerCase
    (bobMessage input))

/-- Notes to an inbox pass Kody's checks. -/
def sent (input : SendInput) : Except Thrown OutboundMessage :=
  sendUserEmail asciiLowerCase kodyConfig "bob@example.com" [bobInbox] noDestinations input

theorem bridge_agrees_note :
    (∃ options, posted (noteTo [bobAddress] []) = .ok options ∧
        options.toAddresses.map EmailAddress.address = [bobAddress.address] ∧
        options.cc.map EmailAddress.address = []) ↔
      1 ≤ 50 ∧ ∀ recipient ∈ [bobAddress],
        normalizeAddress asciiLowerCase recipient.address = recipient.address ∧
          MailBridge.isEmailAddress recipient.address = true := by
  have hsent : sent (noteTo [bobAddress] []) = .ok (bobMessage (noteTo [bobAddress] [])) := by rfl
  exact bridge_agrees hsent (List.mem_singleton.mpr rfl)

/-- A message to 50 addresses with a copy to one more passes Kody's checks, and the bridge refuses it;
    of two recipients the bridge drops one whose name has a blank. -/
theorem bridge_disagrees :
    (sent crowd = .ok (bobMessage crowd) ∧
        posted crowd = .error (.error "At most 50 recipients per message.")) ∧
      sent blankName = .ok (bobMessage blankName) ∧
        (posted blankName).map MailOptions.toAddresses = .ok [bobAddress] := by
  have hcrowd : sent crowd = .ok (bobMessage crowd) := by rfl
  have hblank : sent blankName = .ok (bobMessage blankName) := by rfl
  exact ⟨⟨hcrowd, by decide +kernel⟩, hblank, by decide +kernel⟩

end KodyCelld.Email
