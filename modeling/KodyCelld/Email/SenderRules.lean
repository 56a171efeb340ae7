import KodyCelld.Email.Inbound
import KodyCelld.Lib.Separators

namespace KodyCelld.Email

open KodyCelld.Lib

/-!
# Which sender rule decides (`cells/user-cell.ts`)

`emailClassify` reads the domain of a sender between the first two `@` of the address; the domain
stands behind the last one, and a quoted local part may hold others.

* `decidingRule` — the rule that the code takes, and `outcome` — what it makes of a rule;
* `intendedRule` — the rule for the address, else the first one for its domain or a parent of it;
* `covers_iff` — a rule covers a domain by the labels that both end in;
* `decidingRule_iff` — the senders for which the two rules are one.
-/

/-- The domain that `emailClassify` reads. -/
def secondPart (address : Text) : Text := (address.splitOn '@').getD 1 []

/-- The domain of an address: what stands behind its last `@`. -/
def lastPart (address : Text) : Option Text := (splitLast '@' address).map Prod.snd

def isAddressRule (address : Text) (rule : SenderRule) : Bool :=
  decide (rule.kind = .address) && decide (rule.value = address)

/-- The test of `emailClassify` for a domain. -/
def covers (domain : Text) (rule : SenderRule) : Bool :=
  decide (rule.kind = .domain) &&
    (decide (rule.value = domain) || ('.' :: rule.value).isSuffixOf domain)

/-- The rule that `emailClassify` takes. -/
def decidingRule (l : LowerCase) (rules : List SenderRule) (sender : Text) : Option SenderRule :=
  (rules.find? (isAddressRule (l.normalize sender))).orElse fun _ =>
    rules.find? (covers (secondPart (l.normalize sender)))

/-- What becomes of a message under a rule; without one it goes to the inbox. -/
def outcome : Option SenderRule → Classification × Text
  | none => (.inbox, "no_rule")
  | some rule =>
    match rule.effect with
    | .allow => (.inbox, ("rule:" : Text) ++ rule.id)
    | .block => (.quarantine, ("blocked:" : Text) ++ rule.id)
    | .quarantine => (.quarantine, ("rule:" : Text) ++ rule.id)

theorem emailClassify_eq (l : LowerCase) (rules : List SenderRule) (sender : Text) :
    emailClassify l rules sender = outcome (decidingRule l rules sender) := rfl

/-! ### The intended rule -/

/-- A domain rule whose domain is the given one, or a parent of it: the labels of the one end in
    those of the other. -/
def RuleFor (domain : Text) (rule : SenderRule) : Prop :=
  rule.kind = .domain ∧ rule.value.splitOn '.' <:+ domain.splitOn '.'

instance (domain : Text) (rule : SenderRule) : Decidable (RuleFor domain rule) :=
  inferInstanceAs (Decidable (_ ∧ _))

/-- **The rule that should decide**: the one for exactly that address, else the first whose domain is
    that of the sender or a parent of it. -/
def intendedRule (l : LowerCase) (rules : List SenderRule) (sender : Text) : Option SenderRule :=
  let address := l.normalize sender
  (rules.find? fun rule => rule.kind = .address ∧ rule.value = address).orElse fun _ =>
    (lastPart address).bind fun domain => rules.find? fun rule => RuleFor domain rule

/-- A sender that no domain rule is misread for: there is a rule for the address, or the first domain
    rule that covers the text between the first two `@` or the one behind the last covers both. -/
def Undisputed (l : LowerCase) (rules : List SenderRule) (sender : Text) : Prop :=
  let address := l.normalize sender
  (∃ rule ∈ rules, rule.kind = .address ∧ rule.value = address) ∨
    ∀ rule, (rules.find? fun rule =>
        covers (secondPart address) rule || (lastPart address).any (covers · rule)) = some rule →
      covers (secondPart address) rule = true ∧ (lastPart address).any (covers · rule) = true

/-- **A rule covers a domain** by its labels. -/
theorem covers_iff {domain : Text} {rule : SenderRule} :
    covers domain rule = true ↔ RuleFor domain rule := by
  unfold covers RuleFor
  rw [Bool.and_eq_true, decide_eq_true_eq, Bool.or_eq_true, decide_eq_true_eq]
  refine and_congr_right fun _ => ?_
  have hsuffix : ('.' :: rule.value).isSuffixOf domain = true ↔
      ∃ front, domain = front ++ '.' :: rule.value := by
    rw [List.isSuffixOf_iff_suffix]
    exact ⟨fun ⟨front, h⟩ => ⟨front, h.symm⟩, fun ⟨front, h⟩ => ⟨front, h.symm⟩⟩
  rw [hsuffix]
  constructor
  · rintro (rfl | ⟨front, rfl⟩)
    · exact List.suffix_rfl
    · rw [List.splitOn_append_cons_self]
      exact List.suffix_append _ _
  · rintro ⟨labels, hlabels⟩
    have hjoin : ∀ text : Text, join '.' (text.splitOn '.') = text := fun text =>
      List.intercalate_splitOn '.'
    by_cases hnone : labels = []
    · rw [hnone, List.nil_append] at hlabels
      exact .inl (by rw [← hjoin rule.value, hlabels, hjoin])
    · refine .inr ⟨join '.' labels, ?_⟩
      rw [← hjoin domain, ← hlabels, join_append hnone (List.splitOn_ne_nil _ _), hjoin]

/-! ### Two tests for rules -/

/-- Two tests find the same first member exactly if the first that passes one of them passes both. -/
theorem find?_eq_iff {α : Type} {p q : α → Bool} {l : List α} :
    l.find? p = l.find? q ↔
      ∀ a, (l.find? fun a => p a || q a) = some a → p a = true ∧ q a = true := by
  induction l with
  | nil => simp
  | cons a l ih =>
    cases hp : p a with
    | true =>
      cases hq : q a with
      | true => simp [hp, hq]
      | false =>
        have hne : some a ≠ l.find? q := by
          intro h
          exact absurd (List.find?_some h.symm) (by simp [hq])
        simpa [List.find?_cons, hp, hq] using hne
    | false =>
      cases hq : q a with
      | true =>
        have hne : l.find? p ≠ some a := by
          intro h
          exact absurd (List.find?_some h) (by simp [hp])
        simpa [List.find?_cons, hp, hq] using hne
      | false => simpa [List.find?_cons, hp, hq] using ih

variable {l : LowerCase} {rules : List SenderRule} {sender : Text}

/-- The rule that should decide, by the tests of the code. -/
theorem intendedRule_eq (l : LowerCase) (rules : List SenderRule) (sender : Text) :
    intendedRule l rules sender =
      (rules.find? (isAddressRule (l.normalize sender))).orElse fun _ =>
        rules.find? fun rule => (lastPart (l.normalize sender)).any (covers · rule) := by
  unfold intendedRule
  dsimp only
  have haddress : (fun rule : SenderRule => decide (rule.kind = .address ∧
      rule.value = l.normalize sender)) = isAddressRule (l.normalize sender) := by
    ext rule
    simp [isAddressRule]
  rw [haddress]
  congr 1
  ext1
  cases lastPart (l.normalize sender) with
  | none => exact (List.find?_eq_none.mpr (by simp)).symm
  | some domain =>
    have hcovers : (fun rule => decide (RuleFor domain rule)) = covers domain := by
      ext rule
      rw [Bool.eq_iff_iff, decide_eq_true_eq, covers_iff]
    rw [Option.bind_some, hcovers]
    rfl

/-- **Which rule decides**: the message becomes what the rule that the code takes makes of it, and
    that rule is the intended one exactly for the senders that no domain rule is misread for. -/
theorem decidingRule_iff (l : LowerCase) (rules : List SenderRule) (sender : Text) :
    emailClassify l rules sender = outcome (decidingRule l rules sender) ∧
      (decidingRule l rules sender = intendedRule l rules sender ↔ Undisputed l rules sender) := by
  refine ⟨emailClassify_eq l rules sender, ?_⟩
  rw [intendedRule_eq, decidingRule]
  have haddress : (∃ rule ∈ rules, rule.kind = .address ∧ rule.value = l.normalize sender) ↔
      (rules.find? (isAddressRule (l.normalize sender))).isSome = true := by
    rw [List.find?_isSome]
    simp [isAddressRule]
  unfold Undisputed
  dsimp only
  rw [haddress, ← find?_eq_iff]
  cases rules.find? (isAddressRule (l.normalize sender)) with
  | some rule => exact iff_of_true rfl (.inl rfl)
  | none => simp

/-- A blocked domain: the address `"a@b"@spam.example` is read as one of `b"`, and gets in. -/
theorem quoted_escapes : ¬ ∀ l rules sender,
    emailClassify l rules sender = outcome (intendedRule l rules sender) := by
  intro h
  have hblocked := h asciiLowerCase [⟨"1", .domain, "spam.example", .block⟩]
    "\"a@b\"@spam.example"
  revert hblocked
  decide +kernel

end KodyCelld.Email
