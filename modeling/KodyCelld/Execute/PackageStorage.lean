import KodyCelld.Execute.ImportSpecifiers
import KodyCelld.Lib.Texts

namespace KodyCelld.Execute

open KodyCelld.Lib

/-!
# The storage stamp (`stampPackageStorage` of `execute/module-graph.ts`)

A regular expression writes the package's name into every `packageStorage()` of a module's text.

* `stampFrom_call`, `stampFrom_append_bar` — what the stamp does with a call, and around a character
  that no call contains;
* `stampFrom_keeps` — **kept text**: the stamp leaves a text as it stands, exactly if no match
  starts in it;
* `not_mentions_iff` — where a match stands in a text.
-/

/-- `packageStorage(` -/
def storageOpen : Text := "packageStorage("

/-- How many characters `packageStorage\(\s*\)` matches at the start of a text. -/
def callLength? (text : Text) : Option ℕ :=
  if startsWith text storageOpen then
    let rest := text.drop storageOpen.length
    match rest.dropWhile isSpace with
    | ')' :: _ => some (storageOpen.length + (rest.takeWhile isSpace).length + 1)
    | _ => none
  else none

/-- The replacement of each match from a place on: with whether a word character stands before it,
    and how much of it belongs to the last match. -/
def stampFrom (argument : Text) : (inWord : Bool) → (skip : ℕ) → Text → Text
  | _, _, [] => []
  | _, skip + 1, c :: rest => stampFrom argument (isWord c) skip rest
  | inWord, 0, c :: rest =>
    match if inWord then none else callLength? (c :: rest) with
    | some n => storageOpen ++ argument ++ ')' :: stampFrom argument (isWord c) (n - 1) rest
    | none => c :: stampFrom argument (isWord c) 0 rest

/-- `packageStorage()` in a saved package module always refers to that package. -/
def stampPackageStorage (source packageName : Text) : Text :=
  stampFrom (jsonString packageName) false 0 source

/-! ### Matches -/

/-- `packageStorage()` starts a text. -/
def CallAt (text : Text) : Prop :=
  ∃ gap after, text = storageOpen ++ gap ++ ')' :: after ∧ ∀ c ∈ gap, isSpace c = true

/-- `packageStorage()` stands in a text, where a word may start. -/
def Mentions (text : Text) : Prop :=
  ∃ before gap after, text = before ++ storageOpen ++ gap ++ ')' :: after ∧
    before.getLast?.any isWord = false ∧ ∀ c ∈ gap, isSpace c = true

/-- Whether a word character stands at the end of a text, or before an empty one. -/
def endsInWord (inWord : Bool) (text : Text) : Bool := (text.getLast?.map isWord).getD inWord

theorem callLength?_call {gap : Text} (hgap : ∀ c ∈ gap, isSpace c = true) (after : Text) :
    callLength? (storageOpen ++ gap ++ ')' :: after) =
      some (storageOpen.length + gap.length + 1) := by
  have hstarts : startsWith (storageOpen ++ gap ++ ')' :: after) storageOpen = true := by
    show storageOpen.isPrefixOf (storageOpen ++ gap ++ ')' :: after) = true
    rw [List.isPrefixOf_iff_prefix, List.append_assoc]
    exact List.prefix_append _ _
  have hdrop : (storageOpen ++ gap ++ ')' :: after).drop storageOpen.length
      = gap ++ ')' :: after := by
    rw [List.append_assoc, List.drop_left]
  have hclose : isSpace ')' = false := by decide
  unfold callLength?
  rw [if_pos hstarts]
  dsimp only
  rw [hdrop, List.dropWhile_append_of_pos hgap, List.takeWhile_append_of_pos hgap]
  simp [hclose]

theorem callAt_of_callLength? {text : Text} {n : ℕ} (h : callLength? text = some n) :
    CallAt text := by
  unfold callLength? at h
  split at h
  · rename_i hstarts
    obtain ⟨rest, rfl⟩ := List.isPrefixOf_iff_prefix.mp hstarts
    dsimp only at h
    rw [List.drop_left] at h
    split at h
    · rename_i after hafter
      refine ⟨rest.takeWhile isSpace, after, ?_, fun c hc => List.mem_takeWhile_imp hc⟩
      rw [List.append_assoc, ← hafter, List.takeWhile_append_dropWhile]
    · exact absurd h (by simp)
  · exact absurd h (by simp)

theorem callAt_iff {text : Text} : CallAt text ↔ callLength? text ≠ none := by
  constructor
  · rintro ⟨gap, after, rfl, hgap⟩
    rw [callLength?_call hgap]
    exact Option.some_ne_none _
  · intro h
    obtain ⟨n, hn⟩ := Option.ne_none_iff_exists'.mp h
    exact callAt_of_callLength? hn

/-- The characters of a match before its gap, by their place. -/
theorem CallAt.get {text : Text} (h : CallAt text) {i : ℕ} (hi : i < storageOpen.length) :
    text[i]? = storageOpen[i]? := by
  obtain ⟨gap, after, rfl, -⟩ := h
  rw [List.append_assoc, List.getElem?_append_left hi]

/-- A match starts with its first letter, and with no other character. -/
theorem CallAt.head {c : Char} {rest : Text} (h : CallAt (c :: rest)) : c = 'p' := by
  have hget := h.get (i := 0) (by decide)
  exact Option.some.inj hget

/-- After the bracket of a match stands a space or the other bracket. -/
theorem CallAt.next {text : Text} (h : CallAt text) :
    ∃ c, text[storageOpen.length]? = some c ∧ (isSpace c = true ∨ c = ')') := by
  obtain ⟨gap, after, rfl, hgap⟩ := h
  rw [List.append_assoc, List.getElem?_append_right (le_refl _), Nat.sub_self]
  cases gap with
  | nil => exact ⟨')', rfl, .inr rfl⟩
  | cons c gap => exact ⟨c, rfl, .inl (hgap c List.mem_cons_self)⟩

/-! ### One step of the stamp -/

theorem endsInWord_cons (inWord : Bool) (c : Char) (text : Text) :
    endsInWord inWord (c :: text) = endsInWord (isWord c) text := by
  cases text with
  | nil => rfl
  | cons d text =>
    obtain ⟨last, hlast⟩ : ∃ last, (d :: text).getLast? = some last :=
      ⟨_, List.getLast?_eq_some_getLast (List.cons_ne_nil d text)⟩
    simp [endsInWord, List.getLast?_cons_cons, hlast]

theorem endsInWord_append (inWord : Bool) (text rest : Text) :
    endsInWord inWord (text ++ rest) = endsInWord (endsInWord inWord text) rest := by
  induction text generalizing inWord with
  | nil => rfl
  | cons c text ih => rw [List.cons_append, endsInWord_cons, endsInWord_cons, ih]

/-- Only the last character counts. -/
theorem endsInWord_cons_append (inWord : Bool) (text : Text) (c : Char) (rest : Text) :
    endsInWord inWord (text ++ c :: rest) = endsInWord (isWord c) rest := by
  rw [endsInWord_append, endsInWord_cons]

section
variable (argument : Text)

theorem stampFrom_plain {inWord : Bool} {c : Char} {rest : Text}
    (h : inWord = true ∨ ¬ CallAt (c :: rest)) :
    stampFrom argument inWord 0 (c :: rest) = c :: stampFrom argument (isWord c) 0 rest := by
  have hnone : (if inWord then none else callLength? (c :: rest)) = none := by
    rcases h with rfl | h
    · rfl
    · rw [callAt_iff, not_not] at h
      rw [h, ite_self]
  rw [stampFrom, hnone]

/-- The rest of a match is passed over. -/
theorem stampFrom_skip (passed rest : Text) (inWord : Bool) :
    stampFrom argument inWord passed.length (passed ++ rest)
      = stampFrom argument (endsInWord inWord passed) 0 rest := by
  induction passed generalizing inWord with
  | nil => rfl
  | cons c passed ih =>
    show stampFrom argument (isWord c) passed.length (passed ++ rest) = _
    rw [ih, endsInWord_cons]

/-- **A call**: the stamp writes the argument between its brackets. -/
theorem stampFrom_call {gap : Text} (hgap : ∀ c ∈ gap, isSpace c = true) (rest : Text) :
    stampFrom argument false 0 (storageOpen ++ gap ++ ')' :: rest)
      = storageOpen ++ argument ++ ')' :: stampFrom argument false 0 rest := by
  have hlength := callLength?_call hgap rest
  obtain ⟨tail, htail⟩ : ∃ tail, storageOpen = 'p' :: tail := ⟨_, rfl⟩
  have htext : storageOpen ++ gap ++ ')' :: rest = 'p' :: ((tail ++ gap ++ [')']) ++ rest) := by
    rw [htail]
    simp
  have hskip : storageOpen.length + gap.length + 1 - 1 = (tail ++ gap ++ [')']).length := by
    rw [htail]
    simp only [List.length_cons, List.length_append, List.length_nil]
    omega
  rw [htext] at hlength ⊢
  rw [stampFrom, if_neg Bool.false_ne_true, hlength]
  dsimp only
  rw [hskip, stampFrom_skip]
  have hends : endsInWord (isWord 'p') (tail ++ gap ++ [')']) = false :=
    endsInWord_cons_append _ _ ')' []
  rw [hends]

/-- A character that a match has only as its first letter, if at all. -/
structure Bar (c : Char) : Prop where
  inner : c ∉ storageOpen.tail
  notSpace : isSpace c = false
  notClose : c ≠ ')'

theorem CallAt.append {text : Text} (h : CallAt text) (rest : Text) : CallAt (text ++ rest) := by
  obtain ⟨gap, after, rfl, hgap⟩ := h
  exact ⟨gap, after ++ rest, by simp, hgap⟩

/-- No match runs over a bar. -/
theorem callAt_append_bar {bar : Char} (hbar : Bar bar) {text rest : Text} (hne : text ≠ []) :
    CallAt (text ++ bar :: rest) ↔ CallAt text := by
  refine ⟨fun h => ?_, fun h => h.append _⟩
  obtain ⟨gap, after, heq, hgap⟩ := h
  rcases List.append_eq_append_iff.mp heq with ⟨past, hover, hrest⟩ | ⟨past, hover, hrest⟩
  · -- the bar stands inside the match
    exfalso
    cases past with
    | nil => exact hbar.notClose (List.cons.inj hrest).1
    | cons d past =>
      obtain rfl := (List.cons.inj hrest).1
      obtain ⟨c, text, rfl⟩ := List.exists_cons_of_ne_nil hne
      have htail : storageOpen.tail ++ gap = text ++ bar :: past := (List.cons.inj hover).2
      have hmem : bar ∈ storageOpen.tail ++ gap := by
        rw [htail]
        exact List.mem_append_right _ List.mem_cons_self
      rcases List.mem_append.mp hmem with hmem | hmem
      · exact hbar.inner hmem
      · exact absurd (hgap bar hmem) (by rw [hbar.notSpace]; exact Bool.false_ne_true)
  · cases past with
    | nil => exact absurd (List.cons.inj hrest).1.symm hbar.notClose
    | cons d past =>
      obtain rfl := (List.cons.inj hrest).1
      exact ⟨gap, past, hover, hgap⟩

/-- **A bar**: what stands before it and what follows are stamped apart. -/
theorem stampFrom_append_bar {bar : Char} (hbar : Bar bar) (text rest : Text) (inWord : Bool) :
    stampFrom argument inWord 0 (text ++ bar :: rest)
      = stampFrom argument inWord 0 text
        ++ stampFrom argument (endsInWord inWord text) 0 (bar :: rest) := by
  -- By induction on the length: a match passes over several characters.
  induction hlength : text.length using Nat.strong_induction_on generalizing text inWord with
  | _ length ih =>
    subst hlength
    cases text with
    | nil => rfl
    | cons c text =>
      have hiff := @callAt_append_bar _ hbar _ rest (List.cons_ne_nil c text)
      by_cases hcall : inWord = false ∧ CallAt (c :: text)
      · obtain ⟨rfl, gap, after, htext, hgap⟩ := hcall
        have hshort : after.length < (c :: text).length := by
          rw [htext]
          simp only [List.length_append, List.length_cons]
          omega
        have hends : endsInWord false (storageOpen ++ gap ++ ')' :: after)
            = endsInWord false after := endsInWord_cons_append _ _ ')' after
        rw [htext, hends, List.append_assoc _ _ (bar :: rest), List.cons_append,
          stampFrom_call argument hgap, stampFrom_call argument hgap, ih _ hshort after false rfl]
        simp only [List.append_assoc, List.cons_append]
      · have hplain : inWord = true ∨ ¬ CallAt (c :: text) := by
          cases inWord with
          | true => exact .inl rfl
          | false => exact .inr fun h => hcall ⟨rfl, h⟩
        have hplain' : inWord = true ∨ ¬ CallAt (c :: (text ++ bar :: rest)) :=
          hplain.imp_right (mt hiff.mp)
        rw [List.cons_append, stampFrom_plain argument hplain, stampFrom_plain argument hplain',
          ih _ (Nat.lt_succ_self _) text (isWord c) rfl, endsInWord_cons, List.cons_append]

/-! ### Kept text -/

/-- No match starts in a text when another one follows. -/
def Quiet : (inWord : Bool) → (text rest : Text) → Prop
  | _, [], _ => True
  | inWord, c :: text, rest =>
    (inWord = false → ¬ CallAt (c :: text ++ rest)) ∧ Quiet (isWord c) text rest

/-- **Kept text**: the stamp leaves a text as it stands, exactly if no match starts in it.  The
    bracket of such a match, and what follows the bracket, must belong to the text. -/
theorem stampFrom_keeps {text rest out : Text} {inWord : Bool} (hquote : argument.head? = some '"')
    (hclosed : ∀ s, s ≠ [] → s <:+ text → CallAt (s ++ rest) → storageOpen.length < s.length) :
    stampFrom argument inWord 0 (text ++ rest) = text ++ out ↔
      Quiet inWord text rest ∧ stampFrom argument (endsInWord inWord text) 0 rest = out := by
  induction text generalizing inWord with
  | nil => simp [Quiet, endsInWord]
  | cons c text ih =>
    have ih := @ih (isWord c) fun s hne hsuffix =>
      hclosed s hne (hsuffix.trans (List.suffix_cons c text))
    by_cases hcall : inWord = false ∧ CallAt (c :: text ++ rest)
    · -- the argument's quote stands where the text has a space or a bracket
      obtain ⟨rfl, hcall⟩ := hcall
      have hlong := hclosed (c :: text) (List.cons_ne_nil c text) (List.suffix_refl _) hcall
      have hnot : ¬ Quiet false (c :: text) rest := fun h => h.1 rfl hcall
      refine ⟨fun heq => ?_, fun h => absurd h.1 hnot⟩
      exfalso
      obtain ⟨d, hd, hspace⟩ := hcall.next
      obtain ⟨gap, after, hsplit, hgap⟩ := hcall
      obtain ⟨quoted, rfl⟩ : ∃ quoted, argument = '"' :: quoted := by
        cases argument with
        | nil => exact absurd hquote (by simp)
        | cons a quoted => exact ⟨quoted, by rw [Option.some.inj hquote]⟩
      rw [hsplit, stampFrom_call _ hgap] at heq
      rw [List.getElem?_append_left hlong] at hd
      have hget := congrArg (fun t : Text => t[storageOpen.length]?) heq
      rw [List.getElem?_append_left hlong, hd, List.append_assoc,
        List.getElem?_append_right (le_refl _), Nat.sub_self] at hget
      obtain rfl : '"' = d := Option.some.inj hget
      exact absurd hspace (by decide)
    · have hplain : inWord = true ∨ ¬ CallAt (c :: (text ++ rest)) := by
        cases inWord with
        | true => exact .inl rfl
        | false => exact .inr fun h => hcall ⟨rfl, h⟩
      have hhere : inWord = false → ¬ CallAt (c :: text ++ rest) := fun hw h => hcall ⟨hw, h⟩
      rw [List.cons_append, List.cons_append, stampFrom_plain argument hplain, List.cons.injEq,
        endsInWord_cons]
      simp only [true_and, ih, Quiet]
      exact ⟨fun h => ⟨⟨hhere, h.1⟩, h.2⟩, fun h => ⟨h.1.2, h.2⟩⟩

end

/-- What follows a text that no match leaves: nothing, or a bar. -/
def BarAfter (rest : Text) : Prop := ∀ c ∈ rest.head?, Bar c

theorem callAt_append_barAfter {text rest : Text} (hrest : BarAfter rest) (hne : text ≠ []) :
    CallAt (text ++ rest) ↔ CallAt text := by
  cases rest with
  | nil => rw [List.append_nil]
  | cons c rest => exact callAt_append_bar (hrest c rfl) hne

theorem quiet_barAfter {text rest : Text} {inWord : Bool} (hrest : BarAfter rest) :
    Quiet inWord text rest ↔ Quiet inWord text [] := by
  induction text generalizing inWord with
  | nil => exact Iff.rfl
  | cons c text ih =>
    simp only [Quiet, ih, List.append_nil,
      callAt_append_barAfter hrest (List.cons_ne_nil c text)]

/-- A match that starts before a bar ends before it. -/
theorem closed_barAfter {text rest : Text} (hrest : BarAfter rest) :
    ∀ s, s ≠ [] → s <:+ text → CallAt (s ++ rest) → storageOpen.length < s.length := by
  intro s hne _ hcall
  obtain ⟨gap, after, rfl, -⟩ := (callAt_append_barAfter hrest hne).mp hcall
  simp only [List.length_append, List.length_cons]
  omega

theorem quiet_iff {text : Text} {inWord : Bool} : Quiet inWord text [] ↔
    ∀ before s, text = before ++ s → endsInWord inWord before = false → ¬ CallAt s := by
  induction text generalizing inWord with
  | nil =>
    refine ⟨fun _ before s htext _ hcall => ?_, fun _ => trivial⟩
    obtain ⟨gap, after, rfl, -⟩ := hcall
    simp at htext
  | cons c text ih =>
    rw [Quiet, ih, List.append_nil]
    constructor
    · rintro ⟨hhere, hlater⟩ before s htext hends
      cases before with
      | nil =>
        obtain rfl : c :: text = s := htext
        exact hhere hends
      | cons d before =>
        obtain ⟨rfl, rfl⟩ := List.cons.inj htext
        exact hlater before s rfl (by rw [← endsInWord_cons inWord]; exact hends)
    · intro h
      refine ⟨fun hword => h [] _ rfl hword, fun before s htext hends => ?_⟩
      exact h (c :: before) s (by rw [htext, List.cons_append])
        (by rw [endsInWord_cons]; exact hends)

/-- **Where a match stands**: a text that mentions no `packageStorage()` is quiet. -/
theorem not_mentions_iff {text : Text} : ¬ Mentions text ↔ Quiet false text [] := by
  have hends : ∀ before : Text,
      endsInWord false before = false ↔ before.getLast?.any isWord = false := by
    intro before
    unfold endsInWord
    cases before.getLast? with
    | none => exact ⟨fun _ => rfl, fun _ => rfl⟩
    | some c => exact Iff.rfl
  rw [quiet_iff]
  constructor
  · rintro h before _ rfl hbefore ⟨gap, after, rfl, hgap⟩
    exact h ⟨before, gap, after, by simp, (hends before).mp hbefore, hgap⟩
  · rintro h ⟨before, gap, after, rfl, hbefore, hgap⟩
    exact h before (storageOpen ++ gap ++ ')' :: after) (by simp) ((hends before).mpr hbefore)
      ⟨gap, after, rfl, hgap⟩

end KodyCelld.Execute
