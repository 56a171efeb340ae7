import KodyCelld.Blobs.SignedLinks

namespace KodyCelld.Blobs

open KodyCelld.Lib

/-!
# Prefixes of blob keys (`blobs/keys.ts`)

A listing takes a prefix that is validated like a key, but may end with a slash.  Keys may hold spaces
before a slash; the prefix is trimmed again once its slashes are dropped.

* `normalizeBlobPrefix` — the prefix that is listed;
* `directory_listed_iff` — the directories of a key whose prefix is one of the key.
-/

/-- Validates a list prefix; `none` stands for `undefined` and `null`. -/
def normalizeBlobPrefix : Option Json → Except Thrown Text
  | none => .ok []
  | some .null => .ok []
  | some (.str text) =>
    let trimmedPrefix := trim text
    if trimmedPrefix = [] then .ok []
    else do
      let normalized ← normalizeBlobKey (.str (stripSlashes trimmedPrefix))
      .ok (if trimmedPrefix.getLast? = some '/' then normalized ++ ['/'] else normalized)
  | some _ => .error (.kody "invalid_blob_key" "Blob prefix must be a string.")

/-! ### Keys -/

/-- What holds of every key. -/
structure BlobKey (key : Text) : Prop where
  nonempty : key ≠ []
  tight : trim key = key
  short : utf16Length key ≤ maxBlobKeyLength
  chars : keyPattern key = true
  last : key.getLast? ≠ some '/'
  segments : ∀ s ∈ key.splitOn '/', s ∉ ([[], ".", ".."] : List Text)

/-- **The keys that are accepted**, and what is returned of them. -/
theorem normalizeBlobKey_ok_iff {text key : Text} :
    normalizeBlobKey (.str text) = .ok key ↔ key = trim text ∧ BlobKey key := by
  constructor
  · intro h
    have hsegments := normalizeBlobKey_segments h
    simp only [normalizeBlobKey] at h
    split at h
    · cases h
    rename_i hne
    split at h
    · cases h
    rename_i hshort
    split at h
    · cases h
    rename_i hchars
    split at h
    · cases h
    obtain rfl := Except.ok.inj h
    simp only [Bool.or_eq_true, Bool.not_eq_true', beq_iff_eq, not_or, Bool.not_eq_false]
      at hchars
    exact ⟨rfl, hne, trim_trim text, Nat.le_of_not_lt hshort, hchars.1, hchars.2, hsegments⟩
  · rintro ⟨rfl, hkey⟩
    have hchars : (!keyPattern (trim text) || (trim text).getLast? == some '/') = false := by
      rw [hkey.chars, Bool.not_true, Bool.false_or, beq_eq_false_iff_ne]
      exact hkey.last
    have hsegments : ((trim text).splitOn '/').any
        (fun segment => decide (segment ∈ ([[], ".", ".."] : List Text))) = false :=
      List.any_eq_false.mpr fun s hs => by simpa using hkey.segments s hs
    simp only [normalizeBlobKey, if_neg hkey.nonempty, if_neg (Nat.not_lt_of_le hkey.short), hchars,
      hsegments, Bool.false_eq_true, if_false]

theorem normalizeBlobKey_blobKey {input : Json} {key : Text} (h : normalizeBlobKey input = .ok key) :
    BlobKey key := by
  cases input with
  | str text => exact (normalizeBlobKey_ok_iff.mp h).2
  | _ => cases h

/-- A key is returned unchanged. -/
theorem BlobKey.normalized {key : Text} (h : BlobKey key) : normalizeBlobKey (.str key) = .ok key :=
  normalizeBlobKey_ok_iff.mpr ⟨h.tight.symm, h⟩

section
variable {key dir rest : Text}

/-- What is before a slash of a key. -/
structure Directory (dir : Text) : Prop where
  nonempty : dir ≠ []
  head : ∀ c ∈ dir.head?, isSpace c = false
  last : dir.getLast? ≠ some '/'
  segments : ∀ s ∈ dir.splitOn '/', s ∉ ([[], ".", ".."] : List Text)

theorem BlobKey.before (h : BlobKey (dir ++ '/' :: rest)) : Directory dir := by
  have hsplit : (dir ++ '/' :: rest).splitOn '/' = dir.splitOn '/' ++ rest.splitOn '/' :=
    List.splitOn_append_cons_self ..
  have hsegments : ∀ s ∈ dir.splitOn '/', s ∉ ([[], ".", ".."] : List Text) := fun s hs =>
    h.segments s (hsplit ▸ List.mem_append_left _ hs)
  have hne : dir ≠ [] := by
    rintro rfl
    exact hsegments [] (by simp) (by decide)
  refine ⟨hne, ?_, ?_, hsegments⟩
  · obtain ⟨c, tail, rfl⟩ := List.exists_cons_of_ne_nil hne
    have hhead := head_of_trim (c :: tail ++ '/' :: rest)
    rw [h.tight] at hhead
    exact hhead
  · intro hslash
    -- a slash before the slash leaves an empty segment
    obtain ⟨front, rfl⟩ := List.getLast?_eq_some_iff.mp hslash
    rw [List.splitOn_append_cons_self] at hsegments
    exact hsegments [] (List.mem_append_right _ (by simp)) (by decide)

/-- **A directory of a key** is a key too, unless it ends in a space. -/
theorem BlobKey.directory (h : BlobKey (dir ++ '/' :: rest))
    (hlast : ∀ c ∈ dir.getLast?, isSpace c = false) : BlobKey dir := by
  have hdir := h.before
  refine ⟨hdir.nonempty, trim_of_tight hdir.head hlast, ?_, ?_, hdir.last, hdir.segments⟩
  · have hshort := h.short
    unfold utf16Length at hshort ⊢
    rw [List.map_append, List.sum_append] at hshort
    omega
  · obtain ⟨c, tail, rfl⟩ := List.exists_cons_of_ne_nil hdir.nonempty
    have hchars := h.chars
    rw [List.cons_append, keyPattern, Bool.and_eq_true, List.all_append, Bool.and_eq_true] at hchars
    rw [keyPattern, hchars.1, hchars.2.1]
    rfl

/-! ### Prefixes -/

/-- A prefix that ends in a slash is validated without it. -/
theorem normalizeBlobPrefix_directory (h : Directory dir) :
    normalizeBlobPrefix (some (.str (dir ++ ['/']))) =
      (normalizeBlobKey (.str dir)).map (· ++ ['/']) := by
  have hlast : (dir ++ ['/']).getLast? = some '/' := List.getLast?_concat ..
  have htrim : trim (dir ++ ['/']) = dir ++ ['/'] := by
    refine trim_of_tight ?_ fun c hc => ?_
    · obtain ⟨c, tail, rfl⟩ := List.exists_cons_of_ne_nil h.nonempty
      exact h.head
    · rw [hlast] at hc
      rw [← Option.some.inj hc]
      decide
  have hstrip : stripSlashes (dir ++ ['/']) = dir := by
    unfold stripSlashes
    rw [List.rdropWhile_concat_pos _ _ _ (by decide), List.rdropWhile_eq_self_iff]
    intro hne hslash
    exact h.last (by rw [List.getLast?_eq_some_getLast hne, of_decide_eq_true hslash])
  have hne : dir ++ ['/'] ≠ [] := List.append_ne_nil_of_right_ne_nil _ (List.cons_ne_nil _ _)
  simp only [normalizeBlobPrefix, htrim, if_neg hne, hstrip, hlast, if_true]
  cases normalizeBlobKey (.str dir) <;> rfl

/-- What trimming leaves of a directory that ends in a space. -/
theorem Directory.trimmed (h : Directory dir) {c : Char} (hc : c ∈ dir.getLast?)
    (hspace : isSpace c = true) :
    ∃ d after, dir = trim dir ++ d :: after ∧ isSpace d = true := by
  obtain ⟨before, after, hdir, hbefore, hafter⟩ := trim_split dir
  have hnil : before = [] := by
    cases before with
    | nil => rfl
    | cons d more =>
      rw [List.all_cons, Bool.and_eq_true] at hbefore
      have hhead := h.head d (by rw [hdir]; rfl)
      rw [hbefore.1] at hhead
      cases hhead
  subst hnil
  cases after with
  | nil =>
    rw [List.append_nil] at hdir
    have hnot := last_of_trim hdir.symm c hc
    rw [hspace] at hnot
    cases hnot
  | cons d more =>
    rw [List.all_cons, Bool.and_eq_true] at hafter
    exact ⟨d, more, hdir, hafter.1⟩

/-- **Listing a directory of a key.**  Its prefix is accepted and is one of the key if and only if the
    directory does not end in a space; and a key is what it normalises to. -/
theorem directory_listed_iff {input : Json} (hinput : normalizeBlobKey input = .ok key)
    (hdir : (dir ++ ['/']) <+: key) :
    ((∃ listed, normalizeBlobPrefix (some (.str (dir ++ ['/']))) = .ok listed ∧ listed <+: key) ↔
      ∀ c ∈ dir.getLast?, isSpace c = false) ∧ normalizeBlobKey (.str key) = .ok key := by
  have hkey := normalizeBlobKey_blobKey hinput
  obtain ⟨rest, hrest⟩ := hdir
  rw [List.append_assoc, List.singleton_append] at hrest
  subst hrest
  refine ⟨?_, hkey.normalized⟩
  rw [normalizeBlobPrefix_directory hkey.before]
  constructor
  · rintro ⟨listed, hlisted, hprefix⟩ c hc
    by_contra hspace
    rw [Bool.not_eq_false] at hspace
    obtain ⟨d, after, hdir, hd⟩ := hkey.before.trimmed hc hspace
    cases hnormal : normalizeBlobKey (.str dir) with
    | error e =>
      rw [hnormal] at hlisted
      cases hlisted
    | ok found =>
      -- where the key has the space, the prefix has its slash
      rw [hnormal] at hlisted
      obtain rfl := Except.ok.inj hlisted
      obtain ⟨rfl, -⟩ := normalizeBlobKey_ok_iff.mp hnormal
      have hcut : trim dir ++ ['/'] <+: trim dir ++ d :: (after ++ '/' :: rest) := by
        have hwhole : dir ++ '/' :: rest = trim dir ++ d :: (after ++ '/' :: rest) := by
          conv_lhs => rw [hdir]
          rw [List.append_assoc, List.cons_append]
        rwa [← hwhole]
      obtain ⟨tail, htail⟩ := (List.prefix_append_right_inj (trim dir)).mp hcut
      obtain rfl := (List.cons.inj htail).1
      exact absurd hd (by decide)
  · intro hlast
    rw [(hkey.directory hlast).normalized]
    refine ⟨dir ++ ['/'], rfl, rest, ?_⟩
    rw [List.append_assoc, List.singleton_append]

/-- The directory of a note, which holds. -/
theorem directory_listed_notes :
    ((∃ listed, normalizeBlobPrefix (some (.str ("notes" ++ ['/']))) = .ok listed ∧
        listed <+: ("notes/a b.md" : Text)) ↔
      ∀ c ∈ ("notes" : Text).getLast?, isSpace c = false) ∧
    normalizeBlobKey (.str "notes/a b.md") = .ok "notes/a b.md" :=
  @directory_listed_iff "notes/a b.md" "notes" (.str "notes/a b.md") (by decide +kernel)
    (by decide)

/-- A directory that ends in a space: its prefix is one of other keys. -/
theorem directory_missed :
    normalizeBlobKey (.str "my notes /a.md") = .ok "my notes /a.md" ∧
      ("my notes /" : Text) <+: "my notes /a.md" ∧
      normalizeBlobPrefix (some (.str "my notes /")) = .ok "my notes/" ∧
      ¬ ("my notes/" : Text) <+: "my notes /a.md" := by
  decide +kernel

end

end KodyCelld.Blobs
