import KodyCelld.Lib.Js

namespace KodyCelld.Lib

/-!
# The ends and pieces of texts

General facts about texts, naming nothing of the repository:

* `trim_of_tight`, `last_of_trim`, `trim_subset`, `trim_split` — what `trim` leaves;
* `LowerCase` — `toLowerCase`, with what it does to every text;
* `stripAngles` — the angle brackets around a text, dropped;
* `splitLast` — a text around the last place of a mark.
-/

/-! ### Pieces -/

/-- No piece of a split has the mark. -/
theorem not_mem_of_mem_splitOn {mark : Char} {text piece : Text} (h : piece ∈ text.splitOn mark) :
    mark ∉ piece := by
  induction text generalizing piece with
  | nil =>
    rw [List.splitOn_eq_singleton List.not_mem_nil, List.mem_singleton] at h
    rw [h]
    exact List.not_mem_nil
  | cons c rest ih =>
    rw [List.splitOn_cons_eq_if_modifyHead] at h
    split at h
    · rcases List.mem_cons.mp h with rfl | hrest
      · exact List.not_mem_nil
      · exact ih hrest
    · rename_i hc
      obtain ⟨first, more, hsplit⟩ := List.exists_cons_of_ne_nil (List.splitOn_ne_nil mark rest)
      rw [hsplit, List.modifyHead_cons] at h
      rcases List.mem_cons.mp h with rfl | hmore
      · intro hmem
        rcases List.mem_cons.mp hmem with heq | hmem
        · rw [heq] at hc
          exact hc (beq_self_eq_true c)
        · exact ih (hsplit ▸ List.mem_cons_self) hmem
      · exact ih (hsplit ▸ List.mem_cons_of_mem _ hmore)

/-- A character of a text is the mark, or is in a piece of the split. -/
theorem mem_splitOn_of_mem (mark : Char) {c : Char} {text : Text} (h : c ∈ text) :
    c = mark ∨ ∃ piece ∈ text.splitOn mark, c ∈ piece := by
  induction text with
  | nil => exact absurd h List.not_mem_nil
  | cons d rest ih =>
    rw [List.splitOn_cons_eq_if_modifyHead]
    split
    · rename_i hd
      rcases List.mem_cons.mp h with rfl | hrest
      · exact .inl (beq_iff_eq.mp hd)
      · rcases ih hrest with hmark | ⟨piece, hpiece, hc⟩
        · exact .inl hmark
        · exact .inr ⟨piece, List.mem_cons_of_mem _ hpiece, hc⟩
    · obtain ⟨first, more, hsplit⟩ := List.exists_cons_of_ne_nil (List.splitOn_ne_nil mark rest)
      rw [hsplit, List.modifyHead_cons]
      rcases List.mem_cons.mp h with rfl | hrest
      · exact .inr ⟨_, List.mem_cons_self, List.mem_cons_self⟩
      · rcases ih hrest with hmark | ⟨piece, hpiece, hc⟩
        · exact .inl hmark
        · rw [hsplit] at hpiece
          rcases List.mem_cons.mp hpiece with rfl | hmore
          · exact .inr ⟨_, List.mem_cons_self, List.mem_cons_of_mem _ hc⟩
          · exact .inr ⟨piece, List.mem_cons_of_mem _ hmore, hc⟩

/-- The characters of a piece are those of the text. -/
theorem mem_of_mem_splitOn {mark : Char} {text piece : Text} (h : piece ∈ text.splitOn mark) {c : Char}
    (hc : c ∈ piece) : c ∈ text := by
  have hjoin : ∀ pieces : List Text, piece ∈ pieces → c ∈ [mark].intercalate pieces := by
    intro pieces hpiece
    induction pieces with
    | nil => exact absurd hpiece List.not_mem_nil
    | cons first rest ih =>
      cases rest with
      | nil => simpa [List.intercalate, List.mem_singleton.mp hpiece] using hc
      | cons second rest =>
        rw [List.intercalate_cons_cons]
        rcases List.mem_cons.mp hpiece with rfl | hpiece
        · exact List.mem_append_left _ (List.mem_append_left _ hc)
        · exact List.mem_append_right _ (ih hpiece)
  have hmem := hjoin _ h
  rwa [List.intercalate_splitOn] at hmem

/-- A text that splits into several pieces, around the first mark. -/
theorem eq_of_splitOn {mark : Char} {text first second : Text} {more : List Text}
    (h : text.splitOn mark = first :: second :: more) :
    text = first ++ mark :: [mark].intercalate (second :: more) := by
  have hjoin : [mark].intercalate (text.splitOn mark) = text := List.intercalate_splitOn mark
  rw [h] at hjoin
  rw [← hjoin, List.intercalate_cons_cons, List.append_assoc, List.singleton_append]

/-! ### Trimming -/

theorem trim_subset (text : Text) : trim text ⊆ text := by
  intro c hc
  rw [trim, List.mem_reverse] at hc
  have hc := List.mem_reverse.mp ((List.dropWhile_suffix isSpace).subset hc)
  exact (List.dropWhile_suffix isSpace).subset hc

/-- A text is what `trim` leaves of it between two runs of whitespace. -/
theorem trim_split (raw : Text) : ∃ before after, raw = before ++ (trim raw ++ after) ∧
    before.all isSpace = true ∧ after.all isSpace = true := by
  refine ⟨raw.takeWhile isSpace, ((raw.dropWhile isSpace).reverse.takeWhile isSpace).reverse, ?_,
    List.all_takeWhile, ?_⟩
  · have hmiddle : trim raw ++ ((raw.dropWhile isSpace).reverse.takeWhile isSpace).reverse =
        raw.dropWhile isSpace := by
      rw [trim, ← List.reverse_append, List.takeWhile_append_dropWhile, List.reverse_reverse]
    rw [hmiddle, List.takeWhile_append_dropWhile]
  · rw [List.all_reverse]
    exact List.all_takeWhile

theorem trim_of_tight {text : Text} (hhead : ∀ c ∈ text.head?, isSpace c = false)
    (hlast : ∀ c ∈ text.getLast?, isSpace c = false) : trim text = text := by
  have hstart : text.dropWhile isSpace = text := by
    cases text with
    | nil => rfl
    | cons c rest => exact List.dropWhile_cons_of_neg (by simp [hhead c rfl])
  have hend : text.reverse.dropWhile isSpace = text.reverse := by
    cases hreverse : text.reverse with
    | nil => rfl
    | cons c rest =>
      have hc : isSpace c = false := by
        refine hlast c ?_
        rw [Option.mem_def, List.getLast?_eq_head?_reverse, hreverse]
        rfl
      exact List.dropWhile_cons_of_neg (by simp [hc])
  rw [trim, hstart, hend, List.reverse_reverse]

/-- The last character of a trimmed text. -/
theorem last_of_trim {text : Text} (h : trim text = text) : ∀ c ∈ text.getLast?, isSpace c = false := by
  intro c hc
  have hlast : ((text.dropWhile isSpace).reverse.dropWhile isSpace).head? = some c := by
    rw [← List.getLast?_reverse]
    exact (congrArg List.getLast? h).trans hc
  have hnot := List.head?_dropWhile_not isSpace (text.dropWhile isSpace).reverse
  rw [hlast] at hnot
  simpa using hnot

/-- The first character of what is left. -/
theorem head_of_trim (text : Text) : ∀ c ∈ (trim text).head?, isSpace c = false := by
  intro c hc
  obtain ⟨rest, htrim⟩ := List.head?_eq_some_iff.mp hc
  by_contra hspace
  rw [Bool.not_eq_false] at hspace
  -- the run in front of it would go on with it
  have hidem := trim_trim text
  rw [htrim, trim, List.dropWhile_cons_of_pos hspace] at hidem
  have hlength := congrArg List.length hidem
  rw [List.length_reverse, List.length_cons] at hlength
  have hfirst := (List.dropWhile_sublist isSpace (l := (rest.dropWhile isSpace).reverse)).length_le
  have hsecond := (List.dropWhile_sublist isSpace (l := rest)).length_le
  rw [List.length_reverse] at hfirst
  omega

/-- Space behind a text is trimmed with it, -/
theorem trim_append_space {text space : Text} (h : ∀ c ∈ space, isSpace c = true) :
    trim (text ++ space) = trim text := by
  have hspace : space.reverse.dropWhile isSpace = [] := by
    rw [List.dropWhile_eq_nil_iff]
    intro c hc
    exact h c (List.mem_reverse.mp hc)
  unfold trim
  by_cases hall : ∀ c ∈ text, isSpace c = true
  · have hstart : text.dropWhile isSpace = [] := List.dropWhile_eq_nil_iff.mpr hall
    rw [List.dropWhile_append, hstart, List.dropWhile_eq_nil_iff.mpr h]
    rfl
  · have hstart : text.dropWhile isSpace ≠ [] := fun hnil => hall (List.dropWhile_eq_nil_iff.mp hnil)
    rw [List.dropWhile_append, if_neg (by simpa using hstart), List.reverse_append,
      List.dropWhile_append, hspace]
    rfl

/-- and so is space before it. -/
theorem trim_space_append {text space : Text} (h : ∀ c ∈ space, isSpace c = true) :
    trim (space ++ text) = trim text := by
  unfold trim
  rw [List.dropWhile_append_of_pos h]

/-- A text without space is trimmed. -/
theorem trim_of_spaceless {text : Text} (h : ∀ c ∈ text, isSpace c = false) : trim text = text :=
  trim_of_tight (fun c hc => h c (List.mem_of_mem_head? hc))
    (fun c hc => h c (List.mem_of_mem_getLast? hc))

/-! ### Lower case -/

/-- `text.toLowerCase()`: what it gives consists of characters that it leaves alone, and it neither
    makes nor moves space. -/
structure LowerCase where
  toLowerCase : Text → Text
  /-- The characters that are left alone. -/
  Kept : Char → Prop
  fixes : ∀ text, (∀ c ∈ text, Kept c) → toLowerCase text = text
  gives : ∀ text, ∀ c ∈ toLowerCase text, Kept c
  trims : ∀ text, trim (toLowerCase text) = toLowerCase (trim text)
  ascii : ∀ c : Char, c.toNat < 128 → ¬('A' ≤ c ∧ c ≤ 'Z') → Kept c

namespace LowerCase

variable (l : LowerCase)

/-- `text.trim().toLowerCase()` -/
def normalize (text : Text) : Text := l.toLowerCase (trim text)

theorem normalize_normalize (text : Text) : l.normalize (l.normalize text) = l.normalize text := by
  unfold normalize
  rw [l.trims, trim_trim]
  exact l.fixes _ (l.gives _)

theorem normalize_kept {text : Text} (h : l.normalize text = text) : ∀ c ∈ text, l.Kept c := by
  intro c hc
  rw [← h] at hc
  exact l.gives _ c hc

theorem trim_normalize (text : Text) : trim (l.normalize text) = l.normalize text := by
  unfold normalize
  rw [l.trims, trim_trim]

end LowerCase

/-! ### Lower case of ASCII letters -/

/-- An upper-case letter is one of 26. -/
theorem toLower_cases (c : Char) : c.toLower = c ∨ ∃ n, 65 ≤ n ∧ n < 91 ∧ c = Char.ofNat n := by
  by_cases h : c.val ≥ 'A'.val ∧ c.val ≤ 'Z'.val
  · have hlow : 65 ≤ c.toNat := h.1
    have hhigh : c.toNat ≤ 90 := h.2
    exact .inr ⟨c.toNat, hlow, by omega, (Char.ofNat_toNat c).symm⟩
  · exact .inl (dif_neg h)

/-- Letters and digits are ASCII. -/
theorem lt_of_alnum {c : Char} (h : (isLetter c || isDigit c) = true) : c.toNat < 128 := by
  have hle : ∀ d : Char, c ≤ d → c.toNat ≤ d.toNat := fun d hd => hd
  have hz : 'z'.toNat = 122 := rfl
  have hZ : 'Z'.toNat = 90 := rfl
  have hnine : '9'.toNat = 57 := rfl
  simp only [isLetter, isDigit, Bool.or_eq_true, Bool.and_eq_true, decide_eq_true_eq] at h
  rcases h with (⟨-, hc⟩ | ⟨-, hc⟩) | ⟨-, hc⟩
  all_goals
    have hbound := hle _ hc
    omega

/-- Only a character that is no letter becomes one that is none. -/
theorem eq_of_toLower {c d : Char} (hd : d.toNat < 'a'.toNat) (h : c.toLower = d) : c = d := by
  rcases toLower_cases c with hsame | ⟨n, hlow, hhigh, rfl⟩
  · exact hsame.symm.trans h
  · have hsmall : ∀ n : Fin 91, 65 ≤ n.val → 97 ≤ (Char.ofNat n).toLower.toNat := by decide +kernel
    have hle := hsmall ⟨n, hhigh⟩ hlow
    rw [h] at hle
    exact absurd hd (Nat.not_lt.mpr hle)

theorem isSpace_toLower (c : Char) : isSpace c.toLower = isSpace c := by
  have hletters : ∀ n ∈ List.range 91, 65 ≤ n →
      isSpace (Char.ofNat n).toLower = isSpace (Char.ofNat n) := by decide +kernel
  rcases toLower_cases c with hsame | ⟨n, hlow, hhigh, rfl⟩
  · rw [hsame]
  · exact hletters n (List.mem_range.mpr hhigh) hlow

theorem toLower_toLower (c : Char) : c.toLower.toLower = c.toLower := by
  have hletters : ∀ n ∈ List.range 91, 65 ≤ n →
      (Char.ofNat n).toLower.toLower = (Char.ofNat n).toLower := by decide +kernel
  rcases toLower_cases c with hsame | ⟨n, hlow, hhigh, rfl⟩
  · rw [hsame, hsame]
  · exact hletters n (List.mem_range.mpr hhigh) hlow

theorem trim_lower (text : Text) : trim (lower text) = lower (trim text) := by
  have hdrop : ∀ s : Text, (s.map Char.toLower).dropWhile isSpace =
      (s.dropWhile isSpace).map Char.toLower := by
    intro s
    rw [List.dropWhile_map]
    congr 2
    exact funext isSpace_toLower
  unfold trim lower
  rw [hdrop, ← List.map_reverse, hdrop, List.map_reverse]

/-- Lower-casing of the ASCII letters alone. -/
def asciiLowerCase : LowerCase where
  toLowerCase := lower
  Kept c := c.toLower = c
  fixes text h := by
    exact (List.map_congr_left h).trans (List.map_id text)
  gives text c hc := by
    obtain ⟨d, -, rfl⟩ := List.mem_map.mp hc
    exact toLower_toLower d
  trims := trim_lower
  ascii c _ hupper := dif_neg hupper

/-! ### Angle brackets -/

/-- `text.replace(/^</, '')` -/
def dropOpen : Text → Text
  | '<' :: rest => rest
  | text => text

/-- `text.replace(/^<|>$/g, '')` -/
def stripAngles (text : Text) : Text :=
  let opened := dropOpen text
  if opened.getLast? = some '>' then opened.dropLast else opened

theorem dropOpen_subset (text : Text) : dropOpen text ⊆ text := by
  unfold dropOpen
  split
  · exact List.subset_cons_self _ _
  · exact List.Subset.refl _

theorem stripAngles_subset (text : Text) : stripAngles text ⊆ text := by
  unfold stripAngles
  dsimp only
  split
  · exact List.Subset.trans (List.dropLast_sublist _).subset (dropOpen_subset text)
  · exact dropOpen_subset text

/-- A text that neither starts nor ends with its bracket stays as it is. -/
theorem stripAngles_eq_self {text : Text} (hopen : text.head? ≠ some '<')
    (hclose : text.getLast? ≠ some '>') : stripAngles text = text := by
  have hopened : dropOpen text = text := by
    unfold dropOpen
    split
    · exact absurd rfl hopen
    · rfl
  unfold stripAngles
  rw [hopened]
  exact if_neg hclose

theorem stripAngles_of_not_mem {text : Text} (hopen : '<' ∉ text) (hclose : '>' ∉ text) :
    stripAngles text = text :=
  stripAngles_eq_self (fun h => hopen (List.mem_of_mem_head? h))
    (fun h => hclose (List.mem_of_mem_getLast? h))

theorem dropOpen_append {front : Text} (hfront : front ≠ []) (back : Text) :
    dropOpen (front ++ back) = dropOpen front ++ back := by
  obtain ⟨c, rest, rfl⟩ := List.exists_cons_of_ne_nil hfront
  by_cases hc : c = '<'
  · rw [hc]
    rfl
  · have hplain : ∀ tail, dropOpen (c :: tail) = c :: tail := by
      intro tail
      unfold dropOpen
      split
      · rename_i heq
        exact absurd (List.cons.inj heq).1 hc
      · rfl
    rw [List.cons_append, hplain, hplain, List.cons_append]

/-- A text that does not end in its bracket loses at most the one that it starts with. -/
theorem stripAngles_append {front back : Text} (hfront : front ≠ []) (hback : back ≠ [])
    (hclose : back.getLast? ≠ some '>') : stripAngles (front ++ back) = dropOpen front ++ back := by
  unfold stripAngles
  rw [dropOpen_append hfront]
  refine if_neg ?_
  rw [List.getLast?_append_of_ne_nil _ hback]
  exact hclose

/-! ### Around the last mark -/

/-- The text before the last place of a mark, and the text after it. -/
def splitLast (mark : Char) : Text → Option (Text × Text)
  | [] => none
  | c :: rest =>
    match splitLast mark rest with
    | some (before, after) => some (c :: before, after)
    | none => if c = mark then some ([], rest) else none

theorem splitLast_eq_none {mark : Char} {text : Text} : splitLast mark text = none ↔ mark ∉ text := by
  induction text with
  | nil => exact ⟨fun _ => List.not_mem_nil, fun _ => rfl⟩
  | cons c rest ih =>
    rw [splitLast, List.mem_cons, not_or]
    cases hrest : splitLast mark rest with
    | some parts => simp [← ih, hrest]
    | none =>
      have hnot : mark ∉ rest := ih.mp hrest
      by_cases hc : c = mark
      · simp [hc]
      · simp [hc, Ne.symm hc, hnot]

theorem splitLast_append {mark : Char} {before after : Text} (h : mark ∉ after) :
    splitLast mark (before ++ mark :: after) = some (before, after) := by
  induction before with
  | nil => rw [List.nil_append, splitLast, splitLast_eq_none.mpr h, if_pos rfl]
  | cons c rest ih => rw [List.cons_append, splitLast, ih]

theorem eq_of_splitLast {mark : Char} {text before after : Text}
    (h : splitLast mark text = some (before, after)) :
    text = before ++ mark :: after ∧ mark ∉ after := by
  induction text generalizing before with
  | nil => cases h
  | cons c rest ih =>
    rw [splitLast] at h
    split at h
    · rename_i first last hrest
      obtain ⟨rfl, rfl⟩ := Prod.mk.inj (Option.some.inj h)
      obtain ⟨heq, hnot⟩ := ih hrest
      exact ⟨by rw [heq, List.cons_append], hnot⟩
    · rename_i hrest
      split at h
      · rename_i hc
        obtain ⟨rfl, rfl⟩ := Prod.mk.inj (Option.some.inj h)
        exact ⟨by rw [hc, List.nil_append], splitLast_eq_none.mp hrest⟩
      · cases h

end KodyCelld.Lib
