import KodyCelld.Webhooks.Verify

namespace KodyCelld.Webhooks

open KodyCelld.Lib KodyCelld.Execute KodyCelld.Packages

/-!
# What signature headers carry

A signature stands in an element of the header: alone, after the configured prefix, or, where none is
configured, as the value of a pair.

* `Carries` — an element carries the signature of a digest, read in one of the three ways;
* `Legible` — the ways in which the code reads it;
* `accepts_iff` — a header is accepted exactly where an element is legible;
* `signatures_exact` — so the check is complete and sound where one that carries the signature is.

What is not legible: base64 without a prefix whose padding makes it look like a pair, a signature that
itself starts with the configured prefix, and a prefix that starts with space, which is trimmed away.
-/

section
variable (v : WebhookVerification) (digest : List UInt8)

/-! ### Elements -/

/-- The element is the signature. -/
def Bare (part : Text) : Prop := candidateMatches digest v.encoding (trim part) = true

/-- The signature follows a prefix. -/
def AfterPrefix (start part : Text) : Prop := ∃ before rest, part = before ++ (start ++ rest) ∧
  before.all isSpace = true ∧ candidateMatches digest v.encoding (trim rest) = true

/-- A text of the form `k=v`. -/
def PairShaped (text : Text) : Prop := ∃ key rest, text = key ++ '=' :: rest ∧ isPairKey key = true

/-- The signature is the value of a pair, not of the timestamp. -/
def PairValue (part : Text) : Prop := ∃ key rest, trim part = key ++ '=' :: rest ∧
  isPairKey key = true ∧ lower key ≠ "t" ∧ candidateMatches digest v.encoding (trim rest) = true

/-- **An element carries the signature** of a digest. -/
def Carries (part : Text) : Prop :=
  Bare v digest part ∨ (∃ start, v.signaturePrefix = some start ∧ AfterPrefix v digest start part) ∨
    (v.signaturePrefix = none ∧ PairValue v digest part)

/-- A prefix that trimming leaves, or that is nothing but space. -/
def Untrimmed (start : Text) : Prop :=
  (∀ c ∈ start.head?, isSpace c = false) ∨ start.all isSpace = true

/-- **The code reads the signature** that an element carries. -/
def Legible (part : Text) : Prop :=
  match v.signaturePrefix with
  | none => PairValue v digest part ∨ (Bare v digest part ∧ ¬ PairShaped (trim part))
  | some start => (AfterPrefix v digest start part ∧ Untrimmed start) ∨
      (Bare v digest part ∧ ¬ (start ≠ [] ∧ startsWith (trim part) start = true))

end

/-! ### Pairs -/

section
variable {v : WebhookVerification} {digest : List UInt8} {part key rest text : Text}

theorem isPairKey_chars (h : isPairKey key = true) : ∀ c ∈ key, decide (c ≠ '=') = true := by
  intro c hc
  rw [decide_eq_true_eq]
  rintro rfl
  cases key with
  | nil => cases hc
  | cons d more =>
    unfold isPairKey at h
    rw [Bool.and_eq_true] at h
    rcases List.mem_cons.mp hc with rfl | hmore
    · exact absurd h.1 (by decide)
    · exact absurd (List.all_eq_true.mp h.2 _ hmore) (by decide)

/-- A pair is taken apart at its first sign. -/
theorem pair_split (h : isPairKey key = true) :
    (key ++ '=' :: rest).takeWhile (· ≠ '=') = key ∧
      (key ++ '=' :: rest).drop key.length = '=' :: rest := by
  constructor
  · rw [List.takeWhile_append_of_pos (isPairKey_chars h)]
    simp
  · exact List.drop_left

theorem pair_of_split (h : text.drop (text.takeWhile (· ≠ '=')).length ≠ []) :
    ∃ rest, text = text.takeWhile (· ≠ '=') ++ '=' :: rest := by
  have hsplit : text.takeWhile (· ≠ '=') ++ text.dropWhile (· ≠ '=') = text :=
    List.takeWhile_append_dropWhile
  cases hdrop : text.dropWhile (· ≠ '=') with
  | nil =>
    rw [hdrop, List.append_nil] at hsplit
    rw [hsplit, List.drop_length] at h
    exact absurd rfl h
  | cons c rest =>
    have hnot := List.head?_dropWhile_not (· ≠ '=') text
    rw [hdrop] at hnot
    have hc : c = '=' := by simpa using hnot
    rw [hdrop, hc] at hsplit
    exact ⟨rest, hsplit.symm⟩

/-! ### One element -/

/-- A text that writes a digest is not empty. -/
theorem ne_nil_of_matches {encoding : SignatureEncoding} (hdigest : digest ≠ [])
    (h : candidateMatches digest encoding text = true) : text ≠ [] := by
  rintro rfl
  obtain ⟨b, more, rfl⟩ := List.exists_cons_of_ne_nil hdigest
  cases encoding with
  | hex =>
    have hnil : lower [] = hexText (b :: more) := of_decide_eq_true h
    cases hnil
  | base64 =>
    have hnil : ([] : Text) = btoa (b :: more) := of_decide_eq_true h
    unfold btoa at hnil
    dsimp only at hnil
    obtain ⟨hdigits, -⟩ := List.append_eq_nil_iff.mp hnil.symm
    cases more with
    | nil => cases hdigits
    | cons c more =>
      cases more with
      | nil => cases hdigits
      | cons d more => cases hdigits

/-- Without a prefix an element is read as a pair, or as it is. -/
theorem candidate_none (hnone : v.signaturePrefix = none) (hdigest : digest ≠ []) :
    (∃ c, signatureCandidate v part = some c ∧ candidateMatches digest v.encoding c = true) ↔
      PairValue v digest part ∨ (Bare v digest part ∧ ¬ PairShaped (trim part)) := by
  unfold signatureCandidate
  dsimp only
  rw [hnone]
  constructor
  · rintro ⟨c, hc, hmatches⟩
    split at hc
    · cases hc
    split at hc
    · rename_i hne hpair
      split at hc
      · cases hc
      rename_i hkey
      obtain ⟨rest, hrest⟩ := pair_of_split hpair.1
      have hdrop : (trim part).drop ((trim part).takeWhile (· ≠ '=')).length = '=' :: rest := by
        conv_lhs => rw [hrest]
        exact List.drop_left' (by rw [← hrest])
      rw [← Option.some.inj hc, hdrop] at hmatches
      exact .inl ⟨_, rest, hrest, hpair.2.1, hkey, hmatches⟩
    · rename_i hne hpair
      rw [← Option.some.inj hc] at hmatches
      have hself : trim (stripPrefix (trim part) none) = trim part := trim_trim part
      rw [hself] at hmatches
      refine .inr ⟨hmatches, ?_⟩
      rintro ⟨key, rest, htrim, hkey⟩
      obtain ⟨htake, hdrop⟩ := @pair_split key rest hkey
      rw [← htrim] at htake hdrop
      exact hpair ⟨by rw [htake, hdrop]; exact List.cons_ne_nil _ _, by rw [htake]; exact hkey, rfl⟩
  · rintro (⟨key, rest, htrim, hkey, ht, hmatches⟩ | ⟨hbare, hshape⟩)
    · obtain ⟨htake, hdrop⟩ := @pair_split key rest hkey
      have hne : trim part ≠ [] := by
        rw [htrim]
        exact List.append_ne_nil_of_right_ne_nil _ (List.cons_ne_nil _ _)
      refine ⟨trim rest, ?_, hmatches⟩
      rw [if_neg hne, htrim, htake, hdrop, if_pos ⟨List.cons_ne_nil _ _, hkey, rfl⟩, if_neg ht]
      rfl
    · have hne : trim part ≠ [] := ne_nil_of_matches hdigest hbare
      refine ⟨trim part, ?_, hbare⟩
      rw [if_neg hne, if_neg]
      · show some (trim (trim part)) = _
        rw [trim_trim]
      · rintro ⟨hrest, hkey, -⟩
        obtain ⟨rest, hsplit⟩ := pair_of_split hrest
        exact hshape ⟨_, rest, hsplit, hkey⟩

/-- With a prefix it is read after the prefix, or as it is. -/
theorem candidate_some {start : Text} (hsome : v.signaturePrefix = some start) (hdigest : digest ≠ []) :
    (∃ c, signatureCandidate v part = some c ∧ candidateMatches digest v.encoding c = true) ↔
      (AfterPrefix v digest start part ∧ Untrimmed start) ∨
        (Bare v digest part ∧ ¬ (start ≠ [] ∧ startsWith (trim part) start = true)) := by
  have hcandidate : ∀ c, signatureCandidate v part = some c ↔
      trim part ≠ [] ∧ trim (stripPrefix (trim part) (some start)) = c := by
    intro c
    unfold signatureCandidate
    dsimp only
    rw [hsome]
    by_cases hnil : trim part = []
    · simp [hnil]
    · simp [hnil]
  obtain ⟨before, after, hsplit, hbefore, hafter⟩ := trim_split part
  constructor
  · rintro ⟨c, hc, hmatches⟩
    obtain ⟨-, rfl⟩ := (hcandidate c).mp hc
    unfold stripPrefix at hmatches
    dsimp only at hmatches
    split at hmatches
    · rename_i hstart
      obtain ⟨rest, hrest⟩ := List.isPrefixOf_iff_prefix.mp hstart
      rw [← hrest, List.drop_left] at hmatches
      refine .inl ⟨⟨before, rest ++ after, ?_, hbefore, ?_⟩, ?_⟩
      · rw [hsplit, ← hrest, List.append_assoc]
      · rw [trim_append_space (List.all_eq_true.mp hafter)]
        exact hmatches
      · cases start with
        | nil => exact .inr rfl
        | cons d more =>
          refine .inl fun c hc => head_of_trim part c ?_
          rw [← hrest]
          exact hc
    · rename_i hstart
      rw [trim_trim] at hmatches
      exact .inr ⟨hmatches, fun h => hstart h.2⟩
  · rintro (⟨⟨front, rest, hpart, hfront, hmatches⟩, hclean⟩ | ⟨hbare, hstart⟩)
    · have hrest : trim rest ≠ [] := ne_nil_of_matches hdigest hmatches
      obtain ⟨inner, behind, hrestSplit, hinner, hbehind⟩ := trim_split rest
      by_cases hspace : start.all isSpace = true
      · -- a prefix of space is trimmed away, and what is left is the signature
        have htrim : trim part = trim rest := by
          rw [hpart, trim_space_append (List.all_eq_true.mp hfront),
            trim_space_append (List.all_eq_true.mp hspace)]
        refine ⟨trim rest, (hcandidate _).mpr ⟨htrim ▸ hrest, ?_⟩, hmatches⟩
        rw [htrim]
        unfold stripPrefix
        dsimp only
        split
        · rename_i hstarts
          obtain ⟨more, hmore⟩ := List.isPrefixOf_iff_prefix.mp hstarts
          have hbehind : trim (start ++ more) = trim more :=
            trim_space_append (List.all_eq_true.mp hspace)
          rw [← hmore, List.drop_left, ← hbehind, hmore, trim_trim]
        · exact trim_trim rest
      · -- any other prefix stays in front of it
        have hhead : ∀ c ∈ start.head?, isSpace c = false := hclean.resolve_right hspace
        obtain ⟨d, more, rfl⟩ : ∃ d more, start = d :: more := by
          cases start with
          | nil => exact absurd rfl hspace
          | cons d more => exact ⟨d, more, rfl⟩
        have htrim : trim part = (d :: more) ++ (inner ++ trim rest) := by
          have hparts : part = front ++ (((d :: more) ++ (inner ++ trim rest)) ++ behind) := by
            rw [hpart]
            conv_lhs => rw [hrestSplit]
            simp only [List.append_assoc]
          rw [hparts, trim_space_append (List.all_eq_true.mp hfront),
            trim_append_space (List.all_eq_true.mp hbehind)]
          refine trim_of_tight (fun c hc => hhead c hc) fun c hc => ?_
          refine last_of_trim (trim_trim rest) c ?_
          rwa [← List.append_assoc, Option.mem_def, List.getLast?_append_of_ne_nil _ hrest] at hc
        have hstarts : startsWith (trim part) (d :: more) = true := by
          rw [htrim]
          exact List.isPrefixOf_iff_prefix.mpr (List.prefix_append _ _)
        refine ⟨trim rest, (hcandidate _).mpr ⟨?_, ?_⟩, hmatches⟩
        · rw [htrim]
          exact List.cons_ne_nil _ _
        · unfold stripPrefix
          dsimp only
          rw [if_pos hstarts, htrim, List.drop_left, trim_space_append (List.all_eq_true.mp hinner),
            trim_trim]
    · have hne : trim part ≠ [] := ne_nil_of_matches hdigest hbare
      refine ⟨trim part, (hcandidate _).mpr ⟨hne, ?_⟩, hbare⟩
      unfold stripPrefix
      dsimp only
      split
      · rename_i hstarts
        have hnil : start = [] := by
          by_contra hne
          exact hstart ⟨hne, hstarts⟩
        rw [hnil]
        exact trim_trim part
      · exact trim_trim part

/-- **An element gives a candidate that writes the digest exactly where it is legible.** -/
theorem candidate_iff (hdigest : digest ≠ []) :
    (∃ c, signatureCandidate v part = some c ∧ candidateMatches digest v.encoding c = true) ↔
      Legible v digest part := by
  unfold Legible
  cases hstart : v.signaturePrefix with
  | none => exact candidate_none hstart hdigest
  | some start => exact candidate_some hstart hdigest

/-! ### Headers -/

/-- What is legible is carried. -/
theorem Legible.carries (h : Legible v digest part) : Carries v digest part := by
  unfold Legible at h
  cases hstart : v.signaturePrefix with
  | none =>
    rw [hstart] at h
    rcases h with hpair | ⟨hbare, -⟩
    · exact .inr (.inr ⟨hstart, hpair⟩)
    · exact .inl hbare
  | some start =>
    rw [hstart] at h
    rcases h with ⟨hafter, -⟩ | ⟨hbare, -⟩
    · exact .inr (.inl ⟨start, hstart, hafter⟩)
    · exact .inl hbare

/-- **A header is accepted exactly where an element of it is legible.** -/
theorem accepts_iff (hdigest : digest ≠ []) (raw : Text) :
    signatureMatches (parseSignatureHeader (some raw) v) digest v.encoding = true ↔
      ∃ part ∈ raw.splitOn ',', Legible v digest part := by
  have hpart : ∀ part, Legible v digest part ↔ ∃ c, signatureCandidate v part = some c ∧
      candidateMatches digest v.encoding c = true := fun part => (candidate_iff hdigest).symm
  unfold signatureMatches
  rw [List.any_eq_true]
  constructor
  · rintro ⟨c, hc, hmatches⟩
    unfold parseSignatureHeader at hc
    dsimp only at hc
    split at hc
    · cases hc
    obtain ⟨part, hmem, hcandidate⟩ := List.mem_filterMap.mp (List.mem_of_mem_filter hc)
    exact ⟨part, hmem, (hpart part).mpr ⟨c, hcandidate, hmatches⟩⟩
  · rintro ⟨part, hmem, hlegible⟩
    obtain ⟨c, hcandidate, hmatches⟩ := (hpart part).mp hlegible
    refine ⟨c, ?_, hmatches⟩
    unfold parseSignatureHeader
    dsimp only
    split
    · rename_i hnil
      -- the empty header has one empty element, without a candidate
      rw [hnil, List.splitOn_eq_singleton List.not_mem_nil] at hmem
      rw [List.mem_singleton.mp hmem] at hcandidate
      cases hcandidate
    · refine List.mem_filter.mpr ⟨List.mem_filterMap.mpr ⟨part, hmem, hcandidate⟩, ?_⟩
      exact decide_eq_true (ne_nil_of_matches hdigest hmatches)

/-- **Signature checking is complete and sound** for a header exactly where one of the elements that
    carry the signature, if there are any, is legible. -/
theorem signatures_exact (hdigest : digest ≠ []) (raw : Text) :
    (signatureMatches (parseSignatureHeader (some raw) v) digest v.encoding = true ↔
        ∃ part ∈ raw.splitOn ',', Carries v digest part) ↔
      ((∃ part ∈ raw.splitOn ',', Carries v digest part) →
        ∃ part ∈ raw.splitOn ',', Legible v digest part) := by
  rw [accepts_iff hdigest]
  constructor
  · exact fun hiff => hiff.mpr
  · intro himp
    constructor
    · rintro ⟨part, hmem, hlegible⟩
      exact ⟨part, hmem, hlegible.carries⟩
    · exact himp

end

/-! ### A padding that looks like a pair -/

/-- Signatures in base64, without a prefix. -/
def plainBase64 : WebhookVerification where
  header := "x-signature"
  secretName := "key"
  encoding := .base64
  signaturePrefix := none
  signedPayload := .body

/-- A digest whose base64 has letters only, and its padding. -/
def letterDigest : List UInt8 := List.replicate 32 0x69

theorem signatures_exact_prefixed : ∃ part ∈ (btoa letterDigest).splitOn ',',
    Legible { plainBase64 with signaturePrefix := some [] } letterDigest part := by
  have hexact := @signatures_exact { plainBase64 with signaturePrefix := some [] } letterDigest
    (by decide) (btoa letterDigest)
  refine (hexact.mp ⟨fun _ => ?_, fun _ => by decide +kernel⟩) ?_
  · exact ⟨btoa letterDigest, by decide +kernel, .inl (by unfold Bare; decide +kernel)⟩
  · exact ⟨btoa letterDigest, by decide +kernel, .inl (by unfold Bare; decide +kernel)⟩

/-- **A correct signature is turned away**: its padding makes it a pair without a value. -/
theorem padding_lost : ¬ ∀ (v : WebhookVerification) (digest : List UInt8) (raw : Text),
    digest.length = 32 → (∃ part ∈ raw.splitOn ',', Carries v digest part) →
      signatureMatches (parseSignatureHeader (some raw) v) digest v.encoding = true := by
  intro h
  have haccepted := h plainBase64 letterDigest (btoa letterDigest) rfl
    ⟨btoa letterDigest, by decide +kernel, .inl (by unfold Bare; decide +kernel)⟩
  have hrejected : signatureMatches (parseSignatureHeader (some (btoa letterDigest)) plainBase64)
      letterDigest plainBase64.encoding = false := by decide +kernel
  rw [hrejected] at haccepted
  cases haccepted

end KodyCelld.Webhooks
