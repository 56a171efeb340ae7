import KodyCelld.Email.Destinations
import KodyCelld.Lib.Texts

namespace KodyCelld.Email

open KodyCelld.Lib
open KodyCelld.Auth.AccountStore (isEmail)

/-!
# Mail addresses (`email/message.ts`, `email/config.ts`, `capabilities/email.ts`)

What a package gives as recipients is turned into a list of addresses; the third-party parser of
address texts is a parameter, and may return any text as an address.

* `toAddressInput`, `addressList` — the addresses in an argument of a capability;
* `splitInboxAddress` — the inbox that an address of the deployment's domain belongs to;
* `InboxLocal`, `EmailDomain` — names of inboxes and domains, with the patterns that they match;
* `addressList_normal` — the addresses of an argument are trimmed and in lower case;
* `isEmail_parts`, `isEmail_append` — an address is a name and a host around its only `@`.
-/

structure EmailAddress where
  address : Text
  name : Option Text
  deriving DecidableEq, Repr

/-- `/^[^\s@<>]+@[^\s@<>]+\.[^\s@<>]+$/` -/
def emailPattern (value : Text) : Bool :=
  isEmail value && value.all fun c => decide (c ≠ '<') && decide (c ≠ '>')

def isEmailAddress (value : Text) : Bool :=
  emailPattern value && decide (utf16Length value ≤ 254)

/-- An address that the third-party parser returns: a mailbox, or a group of them. -/
inductive ParsedAddress where
  | mailbox (address name : Option Text)
  | group (members : List (Option Text × Option Text))
  deriving DecidableEq, Repr

/-- `value || null` -/
def orNull (value : Option Text) : Option Text := value.filter fun text => !text.isEmpty

section
variable (l : LowerCase)

/-- A mailbox with an address, or nothing. -/
def flattenMailbox (member : Option Text × Option Text) : List EmailAddress :=
  match orNull member.1 with
  | none => []
  | some address => [⟨l.normalize address, orNull member.2⟩]

def flattenAddresses (list : List ParsedAddress) : List EmailAddress :=
  list.flatMap fun item =>
    match item with
    | .mailbox address name => flattenMailbox l (address, name)
    | .group members => members.flatMap (flattenMailbox l)

/-- `none` from the parser stands for an exception. -/
def parseAddressList (addressParser : Text → Option (List ParsedAddress)) (raw : Text) :
    List EmailAddress :=
  if (trim raw).isEmpty then []
  else match addressParser raw with
    | some list => flattenAddresses l list
    | none => (((raw.splitOn ',').map trim).filter isEmailAddress).map fun address =>
        ⟨l.normalize address, none⟩

/-- `a ?? b`, where both may be missing. -/
def nullish (a b : Option Json) : Option Json :=
  match a with
  | none => b
  | some .null => b
  | some value => some value

/-- The address in a record. -/
def recordAddress (members : List (Text × Json)) : List EmailAddress :=
  let address := nullish (nullish (Json.member members "address") (Json.member members "email"))
    (Json.member members "Email")
  match Json.text? address with
  | none => []
  | some address =>
    if isEmailAddress (trim address) then
      let name := nullish (Json.member members "name") (Json.member members "Name")
      [⟨l.normalize address, orNull (Json.text? name)⟩]
    else []

variable (addressParser : Text → Option (List ParsedAddress))

/-- One item of a list of addresses. -/
def itemAddresses : Json → List EmailAddress
  | .str raw => parseAddressList l addressParser raw
  | .obj members => recordAddress l members
  | _ => []

def toAddressInput (value : Option Json) : List EmailAddress :=
  match value with
  | none => []
  | some (.arr items) => items.flatMap (itemAddresses l addressParser)
  | some value => itemAddresses l addressParser value

/-- `addressList(value, field)` of a capability. -/
def addressList (value : Option Json) (field : Text) : Except Thrown (List EmailAddress) :=
  let list := toAddressInput l addressParser value
  if 50 < list.length then
    .error (.kody "invalid_args" ("\"" ++ field ++ "\" may list at most 50 addresses."))
  else .ok list

end

/-! ### Inboxes and domains -/

/-- `[a-z0-9]` -/
def isLowerAlnum (c : Char) : Bool := ('a' ≤ c && c ≤ 'z') || isDigit c

/-- `/^[a-z0-9][a-z0-9._-]{1,62}$/` -/
def inboxLocalPattern (local' : Text) : Bool :=
  match local' with
  | [] => false
  | c :: rest => isLowerAlnum c && decide (1 ≤ rest.length ∧ rest.length ≤ 62) &&
      rest.all fun c => isLowerAlnum c || decide (c ∈ ['.', '_', '-'])

/-- A row of `inbox_locals`; only names that match the pattern are claimed. -/
structure InboxLocal where
  text : Text
  userId : Text
  valid : inboxLocalPattern text = true

/-- `[a-z0-9](?:[a-z0-9-]{0,61}[a-z0-9])?` -/
def domainLabel (label : Text) : Bool :=
  decide (label.length ≤ 63) && (label.all fun c => isLowerAlnum c || decide (c = '-')) &&
    label.head?.any isLowerAlnum && label.getLast?.any isLowerAlnum

/-- `emailDomainPattern`: labels, and a last one of letters. -/
def emailDomainPattern (domain : Text) : Bool :=
  let labels := domain.splitOn '.'
  decide (domain.length ≤ 253) && decide (2 ≤ labels.length) && labels.dropLast.all domainLabel &&
    labels.getLast?.any fun last =>
      decide (2 ≤ last.length ∧ last.length ≤ 63) && last.all fun c => decide ('a' ≤ c ∧ c ≤ 'z')

/-- `KODY_EMAIL_DOMAIN` -/
structure EmailDomain where
  text : Text
  valid : emailDomainPattern text = true

/-- The inbox of an address on the domain: the text before the last `@`, up to its first `+`. -/
def splitInboxAddress (l : LowerCase) (address domain : Text) : Option (Text × Option Text) :=
  match splitLast '@' (l.normalize address) with
  | none => none
  | some (localPart, host) =>
    if localPart = [] then none
    else if host ≠ domain then none
    else
      let base := localPart.takeWhile fun c => decide (c ≠ '+')
      if base = [] then none
      else some (base, orNull ((localPart.dropWhile fun c => decide (c ≠ '+')).tail?))

/-! ### What an argument lists -/

section
variable (l : LowerCase) (addressParser : Text → Option (List ParsedAddress))

theorem flattenMailbox_normal {member : Option Text × Option Text} {entry : EmailAddress}
    (h : entry ∈ flattenMailbox l member) : l.normalize entry.address = entry.address := by
  unfold flattenMailbox at h
  split at h
  · exact absurd h List.not_mem_nil
  rw [List.mem_singleton] at h
  rw [h]
  exact l.normalize_normalize _

theorem parseAddressList_normal {raw : Text} {entry : EmailAddress}
    (h : entry ∈ parseAddressList l addressParser raw) :
    l.normalize entry.address = entry.address := by
  unfold parseAddressList at h
  split at h
  · exact absurd h List.not_mem_nil
  split at h
  · obtain ⟨item, -, hitem⟩ := List.mem_flatMap.mp h
    cases item with
    | mailbox address name => exact flattenMailbox_normal l hitem
    | group members =>
      obtain ⟨member, -, hmember⟩ := List.mem_flatMap.mp hitem
      exact flattenMailbox_normal l hmember
  · obtain ⟨address, -, rfl⟩ := List.mem_map.mp h
    exact l.normalize_normalize _

theorem itemAddresses_normal {item : Json} {entry : EmailAddress}
    (h : entry ∈ itemAddresses l addressParser item) :
    l.normalize entry.address = entry.address := by
  cases item with
  | str raw => exact parseAddressList_normal l addressParser h
  | obj members =>
    simp only [itemAddresses, recordAddress] at h
    split at h
    · exact absurd h List.not_mem_nil
    split at h
    · rw [List.mem_singleton] at h
      rw [h]
      exact l.normalize_normalize _
    · exact absurd h List.not_mem_nil
  | _ => exact absurd h List.not_mem_nil

/-- **The addresses of an argument** are trimmed and in lower case. -/
theorem addressList_normal {value : Option Json} {field : Text} {list : List EmailAddress}
    (h : addressList l addressParser value field = .ok list) :
    ∀ entry ∈ list, l.normalize entry.address = entry.address := by
  intro entry hentry
  simp only [addressList] at h
  split at h
  · cases h
  obtain rfl := Except.ok.inj h
  unfold toAddressInput at hentry
  split at hentry
  · exact absurd hentry List.not_mem_nil
  · obtain ⟨item, -, hitem⟩ := List.mem_flatMap.mp hentry
    exact itemAddresses_normal l addressParser hitem
  · exact itemAddresses_normal l addressParser hentry

end

/-! ### The shape of an address -/

theorem isEmail_spaceless {s : Text} (h : isEmail s = true) : ∀ c ∈ s, isSpace c = false := by
  intro c hc
  have hall := (Bool.and_eq_true_iff.mp h).1
  simpa using List.all_eq_true.mp hall c hc

/-- An address is a name and a host around its only `@`. -/
theorem isEmail_parts {s : Text} (h : isEmail s = true) :
    ∃ name host, s = name ++ '@' :: host ∧ name ≠ [] ∧ '@' ∉ name ∧ '@' ∉ host := by
  have hmatch := (Bool.and_eq_true_iff.mp h).2
  split at hmatch
  · rename_i name host hsplit
    have hname : name ∈ s.splitOn '@' := by
      rw [hsplit]
      exact List.mem_cons_self
    have hhost : host ∈ s.splitOn '@' := by
      rw [hsplit]
      exact List.mem_cons_of_mem _ List.mem_cons_self
    refine ⟨name, host, ?_, ?_, not_mem_of_mem_splitOn hname, not_mem_of_mem_splitOn hhost⟩
    · rw [eq_of_splitOn hsplit, List.intercalate_singleton]
    · intro hempty
      rw [hempty] at hmatch
      cases hmatch
  · cases hmatch

/-- A name and a host with a dot between texts make an address. -/
theorem isEmail_append {name before after : Text} (hname : name ≠ []) (hbefore : before ≠ [])
    (hafter : after ≠ []) (hat : '@' ∉ name) (hhost : '@' ∉ before ++ '.' :: after)
    (hspace : ∀ c ∈ name ++ '@' :: (before ++ '.' :: after), isSpace c = false) :
    isEmail (name ++ '@' :: (before ++ '.' :: after)) = true := by
  have hsplit : (name ++ '@' :: (before ++ '.' :: after)).splitOn '@' =
      [name, before ++ '.' :: after] := by
    rw [List.splitOn_append_cons_self_of_not_mem hat, List.splitOn_eq_singleton hhost]
  have hall : (name ++ '@' :: (before ++ '.' :: after)).all (fun c => !isSpace c) = true := by
    rw [List.all_eq_true]
    intro c hc
    rw [hspace c hc]
    rfl
  unfold isEmail
  rw [hall, hsplit, Bool.true_and, Bool.and_eq_true]
  constructor
  · simpa using hname
  · rw [List.any_eq_true]
    have hpos : 0 < before.length := List.length_pos_iff.mpr hbefore
    have hpos' : 0 < after.length := List.length_pos_iff.mpr hafter
    refine ⟨before.length, ?_, ?_⟩
    · rw [List.mem_range, List.length_append, List.length_cons]
      omega
    · have hdot : (before ++ '.' :: after)[before.length]? = some '.' := by
        rw [List.getElem?_append_right (le_refl _), Nat.sub_self]
        rfl
      rw [hdot, List.length_append, List.length_cons]
      have hlt : before.length + 1 < before.length + (after.length + 1) := by omega
      simp only [decide_true, hpos, hlt, Bool.and_self]

/-! ### Characters of names -/

/-- `[a-z0-9._-]` -/
def isMailChar (c : Char) : Bool := isLowerAlnum c || decide (c ∈ ['.', '_', '-'])

theorem isMailChar_toNat {c : Char} (h : isMailChar c = true) :
    c.toNat < 128 ∧ ¬('A' ≤ c ∧ c ≤ 'Z') := by
  rw [isMailChar, isLowerAlnum, isDigit] at h
  simp only [Bool.or_eq_true, Bool.and_eq_true, decide_eq_true_eq, Char.le_def,
    UInt32.le_iff_toNat_le, List.mem_cons, List.not_mem_nil, or_false] at h ⊢
  have hz : ('z' : Char).val.toNat = 122 := rfl
  have ha : ('a' : Char).val.toNat = 97 := rfl
  have hn : ('9' : Char).val.toNat = 57 := rfl
  have hA : ('A' : Char).val.toNat = 65 := rfl
  have hZ : ('Z' : Char).val.toNat = 90 := rfl
  have hval : c.toNat = c.val.toNat := rfl
  rcases h with (h | h) | rfl | rfl | rfl
  · omega
  · omega
  · decide
  · decide
  · decide

theorem isMailChar_marks {c : Char} (h : isMailChar c = true) :
    c ≠ '@' ∧ c ≠ '<' ∧ c ≠ '>' ∧ isSpace c = false := by
  have hplain : ∀ c ∈ ['@', '<', '>', '\t', '\n', '\x0b', '\x0c', '\r', ' ', '\u00a0', '\u1680',
      '\u2028', '\u2029', '\u202f', '\u205f', '\u3000', '\ufeff'], isMailChar c = false := by decide
  have hne : ∀ d, isMailChar d = false → c ≠ d := by
    intro d hd hcd
    rw [← hcd, h] at hd
    cases hd
  refine ⟨hne _ (by decide), hne _ (by decide), hne _ (by decide), ?_⟩
  rw [Bool.eq_false_iff]
  intro hspace
  rw [isSpace, Bool.or_eq_true, decide_eq_true_eq] at hspace
  rcases hspace with hlisted | hrange
  · have hmem : c ∈ '@' :: '<' :: '>' :: _ :=
      List.mem_cons_of_mem _ (List.mem_cons_of_mem _ (List.mem_cons_of_mem _ hlisted))
    exact hne c (hplain c hmem) rfl
  · simp only [Bool.and_eq_true, decide_eq_true_eq] at hrange
    have := (isMailChar_toNat h).1
    omega

theorem InboxLocal.mailChars (inbox : InboxLocal) : ∀ c ∈ inbox.text, isMailChar c = true := by
  intro c hc
  have hvalid := inbox.valid
  unfold inboxLocalPattern at hvalid
  split at hvalid
  · cases hvalid
  rename_i first rest htext
  rw [htext] at hc
  simp only [Bool.and_eq_true] at hvalid
  obtain ⟨⟨hfirst, -⟩, hrest⟩ := hvalid
  rcases List.mem_cons.mp hc with rfl | hc
  · rw [isMailChar, hfirst, Bool.true_or]
  · exact List.all_eq_true.mp hrest c hc

theorem InboxLocal.length (inbox : InboxLocal) :
    inbox.text ≠ [] ∧ inbox.text.length ≤ 63 := by
  have hvalid := inbox.valid
  unfold inboxLocalPattern at hvalid
  split at hvalid
  · cases hvalid
  rename_i first rest htext
  simp only [Bool.and_eq_true, decide_eq_true_eq] at hvalid
  rw [htext, List.length_cons]
  exact ⟨List.cons_ne_nil _ _, by omega⟩

/-- The labels of a domain: each is a label or consists of letters. -/
theorem EmailDomain.labels (domain : EmailDomain) :
    ∃ first second more, domain.text.splitOn '.' = first :: second :: more ∧
      ∀ label ∈ domain.text.splitOn '.', label ≠ [] ∧ ∀ c ∈ label, isMailChar c = true := by
  have hvalid := domain.valid
  unfold emailDomainPattern at hvalid
  simp only [Bool.and_eq_true, decide_eq_true_eq] at hvalid
  obtain ⟨⟨⟨-, htwo⟩, hinit⟩, hlast⟩ := hvalid
  obtain ⟨first, rest, hsplit⟩ :=
    List.exists_cons_of_ne_nil (List.splitOn_ne_nil '.' domain.text)
  rw [hsplit] at htwo hinit hlast ⊢
  cases rest with
  | nil => simp at htwo
  | cons second more =>
    refine ⟨first, second, more, rfl, ?_⟩
    intro label hlabel
    have hne : first :: second :: more ≠ [] := List.cons_ne_nil _ _
    rw [← List.dropLast_append_getLast hne, List.mem_append, List.mem_singleton] at hlabel
    rcases hlabel with hlabel | rfl
    · have hok := List.all_eq_true.mp hinit label hlabel
      unfold domainLabel at hok
      simp only [Bool.and_eq_true, List.all_eq_true] at hok
      obtain ⟨⟨⟨-, hchars⟩, hhead⟩, -⟩ := hok
      refine ⟨?_, ?_⟩
      · rintro rfl
        cases hhead
      · intro c hc
        have hchar := hchars c hc
        simp only [Bool.or_eq_true, decide_eq_true_eq] at hchar
        rcases hchar with hchar | rfl
        · rw [isMailChar, hchar, Bool.true_or]
        · rfl
    · rw [List.getLast?_eq_getLast_of_ne_nil hne] at hlast
      simp only [Option.any_some, Bool.and_eq_true, decide_eq_true_eq, List.all_eq_true] at hlast
      obtain ⟨hlength, hchars⟩ := hlast
      refine ⟨?_, ?_⟩
      · intro hempty
        rw [hempty] at hlength
        simp at hlength
      · intro c hc
        have hchar := hchars c hc
        simp [isMailChar, isLowerAlnum, hchar]

theorem EmailDomain.mailChars (domain : EmailDomain) : ∀ c ∈ domain.text, isMailChar c = true := by
  intro c hc
  obtain ⟨-, -, -, -, hlabels⟩ := domain.labels
  rcases mem_splitOn_of_mem '.' hc with rfl | ⟨label, hlabel, hc⟩
  · rfl
  · exact (hlabels label hlabel).2 c hc

/-- A domain has a dot between texts. -/
theorem EmailDomain.dot (domain : EmailDomain) :
    ∃ before after, domain.text = before ++ '.' :: after ∧ before ≠ [] ∧ after ≠ [] := by
  obtain ⟨first, second, more, hsplit, hlabels⟩ := domain.labels
  have hfirst := (hlabels first (hsplit ▸ List.mem_cons_self)).1
  have hsecond := (hlabels second (hsplit ▸ List.mem_cons_of_mem _ List.mem_cons_self)).1
  refine ⟨first, _, eq_of_splitOn hsplit, hfirst, ?_⟩
  intro hempty
  cases more with
  | nil =>
    rw [List.intercalate_singleton] at hempty
    exact hsecond hempty
  | cons third more =>
    rw [List.intercalate_cons_cons] at hempty
    simp at hempty

/-- **An inbox's address** is an address, of characters that lower-casing leaves alone. -/
theorem inboxAddress_ok (inbox : InboxLocal) (domain : EmailDomain) :
    emailPattern (inbox.text ++ '@' :: domain.text) = true ∧
      (inbox.text ++ '@' :: domain.text).length ≤ 317 := by
  have hlocal := inbox.mailChars
  have hdomain := domain.mailChars
  have hvalid := domain.valid
  unfold emailDomainPattern at hvalid
  simp only [Bool.and_eq_true, decide_eq_true_eq] at hvalid
  constructor
  · rw [emailPattern, Bool.and_eq_true]
    constructor
    · obtain ⟨before, after, htext, hbefore, hafter⟩ := domain.dot
      rw [htext] at hdomain ⊢
      refine isEmail_append inbox.length.1 hbefore hafter
        (fun h => (isMailChar_marks (hlocal _ h)).1 rfl)
        (fun h => (isMailChar_marks (hdomain _ h)).1 rfl) ?_
      intro c hc
      rcases List.mem_append.mp hc with hc | hc
      · exact (isMailChar_marks (hlocal c hc)).2.2.2
      · rcases List.mem_cons.mp hc with rfl | hc
        · decide
        · exact (isMailChar_marks (hdomain c hc)).2.2.2
    · rw [List.all_eq_true]
      intro c hc
      rcases List.mem_append.mp hc with hc | hc
      · obtain ⟨-, hopen, hclose, -⟩ := isMailChar_marks (hlocal c hc)
        simp [hopen, hclose]
      · rcases List.mem_cons.mp hc with rfl | hc
        · decide
        · obtain ⟨-, hopen, hclose, -⟩ := isMailChar_marks (hdomain c hc)
          simp [hopen, hclose]
  · have := inbox.length.2
    rw [List.length_append, List.length_cons]
    omega

end KodyCelld.Email
