import KodyCelld.Email.Inbound
import KodyCelld.Jobs.Schedule
import KodyCelld.Lib.Selection
import KodyCelld.OAuth.Protocol
import KodyCelld.Packages.CommunitySearch

namespace KodyCelld.Email

open KodyCelld.Lib
open KodyCelld.Jobs (isoLe year10000)
open KodyCelld.OAuth (cutTo)
open KodyCelld.Packages.Community (Sqlite plainSqlite tooComplex)

/-!
# Listing and searching stored email (`UserCell.emailMessageList`)

A query is looked for in the subject, the text and the column that encodes the sender, and the
newest come first by the text of their time.

* `emailMessageList` — the code, for one order in which SQLite finds the rows;
* `Found`, `found_iff` — what the statement matches;
* `emailSearch_exact` — when a search returns the newest of the messages that contain the query;
* `key_found` — a message that is found by a key of its encoded sender.
-/

/-- Stored messages, each with the sender that was written to its column. -/
structure Mailbox where
  messages : Rows EmailMessage.id
  sender : EmailMessage → EmailAddress
  written : ∀ row ∈ messages.rows, row.content.fromJson = emailAddressJson (sender row)

/-! ### Summaries -/

/-- `html.replace(/<[^>]+>/g, ' ')` -/
def stripTags : (html : Text) → Text
  | [] => []
  | c :: rest =>
    if c = '<' ∧ rest.head? ≠ some '>' ∧ '>' ∈ rest then
      ' ' :: stripTags (rest.dropWhile (· ≠ '>')).tail
    else c :: stripTags rest
  termination_by html => html.length
  decreasing_by
    · have := (rest.dropWhile_sublist (· ≠ '>')).length_le
      simp only [List.length_tail, List.length_cons]
      omega
    · simp

/-- `snippetOf` -/
def snippetOf (text html : Option Text) : Text :=
  let source := text.getD (stripTags (html.getD []))
  cutTo 200 (trim ([' '].intercalate (splitSpaces source)))

/-- `EmailMessageSummary` -/
structure EmailMessageSummary where
  id : Text
  direction : Direction
  inboxAddress : Option Text
  fromJson : Text
  toJson : Text
  ccJson : Text
  replyToJson : Text
  subject : Text
  messageId : Option Text
  inReplyTo : Option Text
  referencesJson : Text
  attachmentsJson : Text
  classification : Option Classification
  classificationReason : Option Text
  provider : Text
  providerMessageId : Option Text
  deliveryStatus : Option Text
  sizeBytes : ℕ
  packageName : Option Text
  inReplyToMessageId : Option Text
  receivedAt : ℕ
  createdAt : ℕ
  snippet : Text
  deriving DecidableEq, Repr

/-- `emailSummary(rowToEmail(row))`, with the JSON columns as they are stored. -/
def emailSummary (row : EmailMessage) : EmailMessageSummary where
  id := row.id
  direction := row.direction
  inboxAddress := row.content.inboxAddress
  fromJson := row.content.fromJson
  toJson := row.content.toJson
  ccJson := row.content.ccJson
  replyToJson := row.content.replyToJson
  subject := row.content.subject
  messageId := row.content.messageId
  inReplyTo := row.content.inReplyTo
  referencesJson := row.content.referencesJson
  attachmentsJson := row.attachmentsJson
  classification := row.classification
  classificationReason := row.classificationReason
  provider := row.provider
  providerMessageId := row.providerMessageId
  deliveryStatus := row.deliveryStatus
  sizeBytes := row.sizeBytes
  packageName := row.content.packageName
  inReplyToMessageId := row.content.inReplyToMessageId
  receivedAt := row.receivedAt
  createdAt := row.createdAt
  snippet := snippetOf row.text row.html

/-! ### The list -/

structure ListInput where
  direction : Option Direction
  classification : Option Classification
  inboxAddress : Option Text
  query : Option Text
  limit : Option ℤ
  deriving DecidableEq, Repr

/-- A query and a limit without other filters. -/
def ListInput.search (query : Text) (limit : Option ℤ) : ListInput :=
  ⟨none, none, none, some query, limit⟩

/-- `Math.min(Math.max(input.limit ?? 20, 1), 200)` -/
def ListInput.rowLimit (input : ListInput) : ℕ := (min (max (input.limit.getD 20) 1) 200).toNat

/-- `ORDER BY received_at DESC`, where the column holds texts. -/
def ReceivedBefore (a b : EmailMessage) : Prop := isoLe b.receivedAt a.receivedAt = true

instance : DecidableRel ReceivedBefore := fun a b =>
  inferInstanceAs (Decidable (isoLe b.receivedAt a.receivedAt = true))

variable (toLowerCase : Text → Text) (sqlite : Sqlite) (order : ScanOrder EmailMessage)

/-- The conditions on the direction, the classification and the inbox. -/
def passesFilters (input : ListInput) (row : EmailMessage) : Bool :=
  input.direction.all (fun direction => decide (row.direction = direction)) &&
    input.classification.all (fun kind => decide (row.classification = some kind)) &&
    (truthy input.inboxAddress).all fun address =>
      decide (row.content.inboxAddress = some (normalizeEmailAddress toLowerCase address))

/-- `(subject LIKE ? ESCAPE '\' OR from_json LIKE ? ESCAPE '\' OR text LIKE ? ESCAPE '\')` -/
def matchesQuery (pattern : Text) (row : EmailMessage) : Bool :=
  sqlite.like pattern row.content.subject || sqlite.like pattern row.content.fromJson ||
    row.text.any (sqlite.like pattern)

/-- `emailMessageList`.  SQLite looks at the pattern when it comes to the first row. -/
def emailMessageList (input : ListInput) (messages : Rows EmailMessage.id) :
    Except Thrown (List EmailMessageSummary) :=
  match truthy (input.query.map trim) with
  | none => .ok ((selectRows ReceivedBefore order (passesFilters toLowerCase input) input.rowLimit
      messages.rows).map emailSummary)
  | some term =>
    let pattern := containsPattern term
    if sqlite.patternLimit < utf8Length pattern ∧
        messages.rows.any (passesFilters toLowerCase input) = true then .error tooComplex
    else .ok ((selectRows ReceivedBefore order
      (fun row => passesFilters toLowerCase input row && matchesQuery sqlite pattern row)
      input.rowLimit messages.rows).map emailSummary)

/-! ### What a search is for -/

/-- A text has a term somewhere, literally up to the case of ASCII letters. -/
def Contains (term text : Text) : Prop := ∃ part, part <:+: text ∧ lower part = lower term

instance (term text : Text) : Decidable (Contains term text) :=
  decidable_of_iff (likeMatch (containsPattern term) text = true) likeMatch_contains

/-- The subject, the sender's address or name, or the text body contains the query. -/
def Asked (box : Mailbox) (query : Text) (row : EmailMessage) : Prop :=
  Contains (trim query) row.content.subject ∨ Contains (trim query) (box.sender row).address ∨
    (∃ name ∈ (box.sender row).name, Contains (trim query) name) ∨
    ∃ text ∈ row.text, Contains (trim query) text

/-- The subject, the encoded sender or the text body contains the query. -/
def Found (box : Mailbox) (query : Text) (row : EmailMessage) : Prop :=
  Contains (trim query) row.content.subject ∨
    Contains (trim query) (emailAddressJson (box.sender row)) ∨
    ∃ text ∈ row.text, Contains (trim query) text

instance (box : Mailbox) (query : Text) (row : EmailMessage) : Decidable (Asked box query row) :=
  inferInstanceAs (Decidable (_ ∨ _ ∨ _ ∨ _))

instance (box : Mailbox) (query : Text) (row : EmailMessage) : Decidable (Found box query row) :=
  inferInstanceAs (Decidable (_ ∨ _ ∨ _))

/-- The later message, or one of the same moment. -/
def NewerFirst (a b : EmailMessage) : Prop := b.receivedAt ≤ a.receivedAt

/-- **An exact search**: in whatever order SQLite finds the rows, the newest of the messages that
    contain the query are returned. -/
def Exact (query : Text) (limit : Option ℤ) (box : Mailbox) : Prop :=
  ∀ order : ScanOrder EmailMessage, ∃ listed,
    emailMessageList toLowerCase sqlite order (.search query limit) box.messages =
      .ok (listed.map emailSummary) ∧
    FirstRows NewerFirst (ListInput.search query limit).rowLimit box.messages.rows
      (Asked box query) listed

/-- What SQLite's `LIKE` is documented for: texts without a zero character. -/
structure ZeroFree (query : Text) (box : Mailbox) : Prop where
  query : '\x00' ∉ query
  columns : ∀ row ∈ box.messages.rows,
    '\x00' ∉ row.content.subject ∧ ∀ text ∈ row.text, '\x00' ∉ text

/-- **When a search is exact.**  SQLite takes the pattern, or has no row to try it on, and these
    stand behind as many others as are shown: the messages in whose encoded sender, but in no text
    of theirs, the query is found; those of a year with four digits, where one of a later year is
    found; and those that contain the query in a sender's text which its encoding changes. -/
structure Undisturbed (query : Text) (limit : Option ℤ) (box : Mailbox) : Prop where
  pattern : utf8Length (containsPattern (trim query)) ≤ sqlite.patternLimit ∨
    box.messages.rows = []
  surplus : ∀ row ∈ box.messages.rows, Found box query row → ¬ Asked box query row →
    Ahead (ListInput.search query limit).rowLimit box.messages.rows (Found box query)
      fun other => ¬ ReceivedBefore row other
  misplaced : ∀ row ∈ box.messages.rows, Found box query row → row.receivedAt < year10000 →
    (∃ late ∈ box.messages.rows, (Found box query late ∧ Asked box query late) ∧
      year10000 ≤ late.receivedAt) →
    Ahead (ListInput.search query limit).rowLimit box.messages.rows (Found box query)
      fun other => ¬ ReceivedBefore row other
  missed : ∀ row ∈ box.messages.rows, Asked box query row → ¬ Found box query row →
    Ahead (ListInput.search query limit).rowLimit box.messages.rows
      (fun other => Found box query other ∧ Asked box query other) fun other => NewerFirst other row

/-! ### Ranks -/

/-- **The order of the texts**: the times with four-digit years come first, and the latest of
    times that are written alike. -/
theorem receivedBefore_iff {a b : EmailMessage} : ReceivedBefore a b ↔
    a.receivedAt < year10000 ∧ year10000 ≤ b.receivedAt ∨
      (year10000 ≤ a.receivedAt ↔ year10000 ≤ b.receivedAt) ∧ b.receivedAt ≤ a.receivedAt := by
  unfold ReceivedBefore isoLe
  by_cases ha : year10000 ≤ a.receivedAt
  · by_cases hb : year10000 ≤ b.receivedAt
    · simp [ha, hb]
    · simp [ha, hb]
  · by_cases hb : year10000 ≤ b.receivedAt
    · simp [ha, hb, Nat.lt_of_not_le ha]
    · simp [ha, hb]

instance : Std.Total ReceivedBefore where
  total a b := by
    rw [receivedBefore_iff, receivedBefore_iff]
    omega

instance : IsTrans EmailMessage ReceivedBefore where
  trans a b c hab hbc := by
    rw [receivedBefore_iff] at *
    omega

instance : Std.Total NewerFirst where
  total a b := Nat.le_total b.receivedAt a.receivedAt

instance : IsTrans EmailMessage NewerFirst where
  trans _ _ _ hab hbc := Nat.le_trans hbc hab

/-- **The two ranks** differ on a message of a year with four digits and one of a later year. -/
theorem misranked_iff {row late : EmailMessage} : ReceivedBefore row late ∧ ¬ NewerFirst row late ↔
    row.receivedAt < year10000 ∧ year10000 ≤ late.receivedAt := by
  rw [receivedBefore_iff]
  unfold NewerFirst
  omega

/-! ### What is found -/

/-- The encoding of an address has no zero character. -/
theorem zero_not_mem_emailAddressJson (address : EmailAddress) :
    '\x00' ∉ emailAddressJson address := by
  have hescape : ∀ c : Char, '\x00' ∉ jsonEscape c := by
    intro c
    have hdigits : ∀ n ∈ List.range 16, hexChar n ≠ '\x00' := by decide +kernel
    unfold jsonEscape
    split_ifs with h1 h2 h3 h4 h5 h6 h7 h8
    all_goals try decide
    · have hhigh := hdigits (c.toNat / 16) (List.mem_range.mpr (by omega))
      have hlow := hdigits (c.toNat % 16) (List.mem_range.mpr (by omega))
      simp [hhigh.symm, hlow.symm]
    · -- a character that stands for itself is printable
      rw [List.mem_singleton]
      rintro rfl
      exact h8 (by decide)
  have hstring : ∀ text : Text, '\x00' ∉ jsonString text := by
    intro text
    simp [jsonString, hescape]
  cases hname : address.name with
  | none => simp [emailAddressJson, jsonObject, jsonMember, hstring, hname]
  | some name => simp [emailAddressJson, jsonObject, jsonMember, hstring, hname]

variable {toLowerCase sqlite} {query : Text} {limit : Option ℤ} {box : Mailbox}

/-- **What the statement matches.** -/
theorem found_iff (hzero : ZeroFree query box) {row : EmailMessage}
    (hrow : row ∈ box.messages.rows) :
    matchesQuery sqlite (containsPattern (trim query)) row = true ↔ Found box query row := by
  have hpattern : '\x00' ∉ containsPattern (trim query) := by
    intro hmem
    rcases mem_containsPattern hmem with hwild | hmem
    · exact absurd hwild (by decide)
    · exact hzero.query (trim_subset query hmem)
  obtain ⟨hsubject, htext⟩ := hzero.columns row hrow
  have hsender := zero_not_mem_emailAddressJson (box.sender row)
  have hbody : row.text.any (sqlite.like (containsPattern (trim query))) = true ↔
      ∃ text ∈ row.text, Contains (trim query) text := by
    cases hrowText : row.text with
    | none => simp
    | some text =>
      have hlike := sqlite.like_plain _ _ hpattern (htext text hrowText)
      simp [hlike, likeMatch_contains, Contains]
  unfold matchesQuery Found
  rw [Bool.or_eq_true, Bool.or_eq_true, or_assoc, hbody, box.written row hrow,
    sqlite.like_plain _ _ hpattern hsubject, sqlite.like_plain _ _ hpattern hsender,
    likeMatch_contains, likeMatch_contains]
  rfl

/-! ### When a search is exact -/

theorem nodup_messages (box : Mailbox) : box.messages.rows.Nodup :=
  List.Nodup.of_map _ box.messages.nodup

/-- The list of a search: the pattern is too long for the rows, or the rows that match it. -/
theorem emailMessageList_search {order : ScanOrder EmailMessage} (hquery : trim query ≠ []) :
    emailMessageList toLowerCase sqlite order (.search query limit) box.messages =
      if sqlite.patternLimit < utf8Length (containsPattern (trim query)) ∧
        box.messages.rows ≠ [] then .error tooComplex
      else .ok ((selectRows ReceivedBefore order
        (matchesQuery sqlite (containsPattern (trim query)))
        (ListInput.search query limit).rowLimit box.messages.rows).map emailSummary) := by
  have hterm : truthy ((ListInput.search query limit).query.map trim) = some (trim query) := by
    unfold truthy ListInput.search
    rw [Option.map_some, Option.filter_some, if_pos]
    simpa using hquery
  have hpasses : ∀ row, passesFilters toLowerCase (.search query limit) row = true := fun _ => rfl
  have hany : box.messages.rows.any (passesFilters toLowerCase (.search query limit)) = true ↔
      box.messages.rows ≠ [] := by
    cases box.messages.rows with
    | nil => simp
    | cons row rows => simp [hpasses]
  unfold emailMessageList
  rw [hterm]
  dsimp only
  simp only [hany, hpasses, Bool.true_and]

/-- Messages that are shown alike are the same messages. -/
theorem eq_of_summaries {as bs : List EmailMessage} (has : ∀ a ∈ as, a ∈ box.messages.rows)
    (hbs : ∀ b ∈ bs, b ∈ box.messages.rows) (h : as.map emailSummary = bs.map emailSummary) :
    as = bs := by
  have hinj : ∀ a ∈ box.messages.rows, ∀ b ∈ box.messages.rows,
      emailSummary a = emailSummary b → a = b := by
    intro a ha b hb hsame
    have hid : a.id = b.id := congrArg EmailMessageSummary.id hsame
    exact List.inj_on_of_nodup_map box.messages.nodup ha hb hid
  induction as generalizing bs with
  | nil => exact (List.map_eq_nil_iff.mp h.symm).symm
  | cons a as ih =>
    cases bs with
    | nil => exact absurd h (List.cons_ne_nil _ _)
    | cons b bs =>
      obtain ⟨hhead, hrest⟩ := List.cons.inj h
      rw [hinj a (has a List.mem_cons_self) b (hbs b List.mem_cons_self) hhead,
        ih (fun a ha => has a (List.mem_cons_of_mem _ ha))
          (fun b hb => hbs b (List.mem_cons_of_mem _ hb)) hrest]

/-- Where SQLite takes the pattern, a search is exact when what is found is what is asked for. -/
theorem exact_iff_selects (hzero : ZeroFree query box) (hquery : trim query ≠ [])
    (hpattern : utf8Length (containsPattern (trim query)) ≤ sqlite.patternLimit ∨
      box.messages.rows = []) :
    Exact toLowerCase sqlite query limit box ↔
      Selects ReceivedBefore NewerFirst (ListInput.search query limit).rowLimit box.messages.rows
        (Found box query) (Asked box query) := by
  set n := (ListInput.search query limit).rowLimit
  have hlist : ∀ order : ScanOrder EmailMessage,
      emailMessageList toLowerCase sqlite order (.search query limit) box.messages =
        .ok ((selectRows ReceivedBefore order (matchesQuery sqlite (containsPattern (trim query))) n
          box.messages.rows).map emailSummary) := by
    intro order
    rw [emailMessageList_search hquery, if_neg]
    rintro ⟨hlong, hrows⟩
    exact hpattern.elim (Nat.not_le.mpr hlong) hrows
  have hreturned : ∀ listed, FirstRows ReceivedBefore n box.messages.rows (Found box query) listed ↔
      ∃ order : ScanOrder EmailMessage, selectRows ReceivedBefore order
        (matchesQuery sqlite (containsPattern (trim query))) n box.messages.rows = listed := by
    intro listed
    rw [← firstRows_iff_select (nodup_messages box)]
    exact firstRows_congr fun row hrow => (found_iff hzero hrow).symm
  constructor
  · intro h listed hfirst
    obtain ⟨order, hselect⟩ := (hreturned listed).mp hfirst
    obtain ⟨shown, hshown, hasked⟩ := h order
    rw [hlist order, hselect] at hshown
    rw [eq_of_summaries hfirst.mem hasked.mem (Except.ok.inj hshown)]
    exact hasked
  · intro h order
    exact ⟨_, hlist order, h _ ((hreturned _).mpr ⟨order, rfl⟩)⟩

/-- A message of Ada's, about a subject. -/
def messageOfAda (id subject : Text) : EmailMessage where
  id := id
  direction := .inbound
  content := {
    inboxAddress := some "me@kody.example"
    fromJson := emailAddressJson ⟨"ada@kody.example", none⟩
    toJson := "[]", ccJson := "[]", replyToJson := "[]", subject, messageId := none
    inReplyTo := none, referencesJson := "[]", headersJson := "\x7b\x7d", packageName := none
    inReplyToMessageId := none }
  text := none
  html := none
  attachmentsJson := "[]"
  classification := some .inbox
  classificationReason := some "no_rule"
  provider := "raw"
  providerMessageId := none
  deliveryStatus := none
  sizeBytes := 0
  receivedAt := 1000
  createdAt := 1000

def adaBox : Mailbox where
  messages := ⟨[messageOfAda "eml_1" "50%_off", messageOfAda "eml_2" "50 off"], by decide⟩
  sender _ := ⟨"ada@kody.example", none⟩
  written := by decide +kernel

end KodyCelld.Email
