import KodyCelld.Execute.ModuleGraph
import KodyCelld.Lib.References

namespace KodyCelld.Execute

open KodyCelld.Lib KodyCelld.Packages

/-!
# Relative paths between modules (`execute/module-graph.ts`)

`relativeSpecifier` between any two paths that `normalizeModulePath` gives.  Such paths may still
start or end with a space, may hold names that start with a dot, and one may be a directory above
the other.

* `relative_specifierOf` — when a specifier starts with `./` or `../`;
* `sum_weight` — the parts of what a text normalises to, counted from those of the text;
* `relativeSpecifier_roundTrips` — the paths between which a relative specifier is written and read
  as the module it was written for.
-/

/-- A path as `normalizeModulePath` gives it. -/
def Normalised (path : Text) : Prop := ∃ raw, normalizeModulePath raw = .ok path

/-- **Where a module reaches another** by a relative specifier. -/
structure RoundTrips (source dest : Text) : Prop where
  /-- Below the directory of the importing module, the first name starts with no dot. -/
  notHidden : ∀ part rest, dest.splitOn '/' = folders source ++ part :: rest →
    part.head? ≠ some '.'
  /-- The module is not the directory above that of the importing module. -/
  notParent : ∀ part, folders source ≠ dest.splitOn '/' ++ [part]
  /-- A module that is no directory above the importing one does not end with a space. -/
  trail : dest.splitOn '/' <+: folders source ∨ ∀ c ∈ dest.getLast?, isSpace c = false
  /-- Where the first directory of the importing module starts with a space, the other module is
      elsewhere, and a name is left of it. -/
  lead : ∀ part ∈ (folders source).head?, part.dropWhile isSpace ≠ part →
    PlainPart (part.dropWhile isSpace) ∧ part ∉ (dest.splitOn '/').head?

/-! ### The parts of a specifier -/

/-- Where two paths part, they differ. -/
theorem dropShared_heads (as bs : List Text) :
    ∀ part ∈ (dropShared as bs).1.head?, part ∉ (dropShared as bs).2.head? := by
  induction as generalizing bs with
  | nil => simp [dropShared]
  | cons a as ih =>
    cases bs with
    | nil => simp [dropShared]
    | cons b bs =>
      rw [dropShared]
      split
      · exact ih bs
      · rename_i hne
        intro part hpart hmem
        obtain rfl := Option.some.inj hpart
        exact hne (Option.some.inj hmem).symm

variable {source dest : Text} {up down : List Text}

/-- What is climbed and what is gone down between two plain paths. -/
theorem relativeSpecifier_parts (hsource : PlainPath source) (hdest : PlainPath dest) :
    ∃ shared up down, folders source = shared ++ up ∧ dest.splitOn '/' = shared ++ down ∧
      (∀ part ∈ up.head?, part ∉ down.head?) ∧
      relativeSpecifier source dest = specifierOf up down := by
  obtain ⟨last, -, -, hfolders, -⟩ := splitOn_folders hsource
  obtain ⟨shared, hfrom, hto⟩ := dropShared_split (pathParts (dirname source)) (pathParts dest)
  have hheads := dropShared_heads (pathParts (dirname source)) (pathParts dest)
  rw [relativeSpecifier_eq]
  rw [hfolders, pathParts_of_plain hdest] at hfrom hto hheads ⊢
  exact ⟨shared, _, _, hfrom, hto, hheads, rfl⟩

/-- The first part of a text before a slash. -/
theorem splitOn_of_startsWith {text front : Text} (hfront : '/' ∉ front)
    (h : startsWith text (front ++ ['/']) = true) : ∃ rest, text.splitOn '/' = front :: rest := by
  obtain ⟨rest, rfl⟩ := List.isPrefixOf_iff_prefix.mp h
  rw [List.append_assoc, List.singleton_append]
  exact ⟨_, List.splitOn_append_cons_self_of_not_mem hfront rest⟩

/-- **When a specifier is relative**: the first name starts with no dot where nothing is climbed, and
    something follows where one directory is. -/
theorem relative_specifierOf (hdown : ∀ part ∈ down, PlainPart part ∧ '/' ∉ part) :
    (startsWith (specifierOf up down) "./" = true ∨ startsWith (specifierOf up down) "../" = true) ↔
      (up = [] → ∀ part ∈ down.head?, part.head? ≠ some '.') ∧ ¬ (up.length = 1 ∧ down = []) := by
  cases up with
  | nil =>
    cases down with
    | nil => exact iff_of_true (.inl rfl) ⟨fun _ part hpart => absurd hpart (by simp), by simp⟩
    | cons part rest =>
      obtain ⟨⟨hne, hdot, hdots⟩, hslash⟩ := hdown part List.mem_cons_self
      have hjoin : ∃ behind, ['/'].intercalate (part :: rest) = part ++ behind := by
        cases rest with
        | nil => exact ⟨[], by simp [List.intercalate]⟩
        | cons next rest => exact ⟨_, by rw [List.intercalate_cons_cons, List.append_assoc]⟩
      obtain ⟨behind, hjoin⟩ := hjoin
      obtain ⟨c, name, rfl⟩ := List.exists_cons_of_ne_nil hne
      have hspec : specifierOf [] ((c :: name) :: rest) =
          if c = '.' then ['/'].intercalate ((c :: name) :: rest)
          else "./" ++ ['/'].intercalate ((c :: name) :: rest) := by
        have hstart : startsWith (['/'].intercalate ((c :: name) :: rest)) "." = decide (c = '.') := by
          rw [hjoin]
          show (['.'] : Text).isPrefixOf (c :: (name ++ behind)) = decide (c = '.')
          by_cases hc : c = '.'
          · rw [hc]
            rfl
          · rw [decide_eq_false hc, List.isPrefixOf_cons_cons]
            simpa using fun heq : '.' = c => hc heq.symm
        show (if startsWith (['/'].intercalate ((c :: name) :: rest)) "." = true then _ else _) = _
        rw [hstart]
        simp
      rw [hspec]
      by_cases hc : c = '.'
      · -- A name that starts with a dot is taken for a relative specifier.
        rw [if_pos hc]
        have hsplit : (['/'].intercalate ((c :: name) :: rest)).splitOn '/' = (c :: name) :: rest :=
          List.splitOn_intercalate _ (fun p hp => (hdown p hp).2) (List.cons_ne_nil _ _)
        refine iff_of_false ?_ fun h => h.1 rfl (c :: name) rfl (by rw [hc]; rfl)
        rintro (h | h)
        · obtain ⟨more, hmore⟩ := @splitOn_of_startsWith _ ['.'] (by decide) h
          rw [hsplit] at hmore
          exact hdot (List.cons.inj hmore).1
        · obtain ⟨more, hmore⟩ := @splitOn_of_startsWith _ ['.', '.'] (by decide) h
          rw [hsplit] at hmore
          exact hdots (List.cons.inj hmore).1
      · rw [if_neg hc]
        refine iff_of_true (.inl ?_) ⟨?_, by simp⟩
        · exact List.isPrefixOf_iff_prefix.mpr (List.prefix_append _ _)
        · rintro - _ hpart
          obtain rfl := Option.some.inj hpart
          simpa using hc
  | cons part up =>
    have hjoin : ∀ rest : List Text, rest ≠ [] →
        ['/'].intercalate ((".." : Text) :: rest) = "../" ++ ['/'].intercalate rest := by
      intro rest hrest
      obtain ⟨next, rest, rfl⟩ := List.exists_cons_of_ne_nil hrest
      rw [List.intercalate_cons_cons]
      rfl
    by_cases hrest : up.map (fun _ => (".." : Text)) ++ down = []
    · -- One directory is climbed, and nothing follows: the specifier is `..`.
      obtain ⟨hup, rfl⟩ := List.append_eq_nil_iff.mp hrest
      obtain rfl := List.map_eq_nil_iff.mp hup
      refine iff_of_false ?_ fun h => h.2 ⟨rfl, rfl⟩
      show ¬ (startsWith ".." "./" = true ∨ startsWith ".." "../" = true)
      decide
    · have hspec : specifierOf (part :: up) down =
          "../" ++ ['/'].intercalate (up.map (fun _ => (".." : Text)) ++ down) := by
        unfold specifierOf
        rw [List.map_cons, List.cons_append, hjoin _ hrest]
        rfl
      rw [hspec]
      refine iff_of_true (.inr ?_) ⟨by simp, ?_⟩
      · exact List.isPrefixOf_iff_prefix.mpr (List.prefix_append _ _)
      · rintro ⟨hlen, rfl⟩
        refine hrest ?_
        rw [List.length_eq_zero_iff.mp (Nat.succ.inj hlen)]
        rfl

/-! ### Counting parts -/

/-- What a segment does to the number of parts. -/
def weight (segment : Text) : ℤ :=
  if segment = [] ∨ segment = "." then 0 else if segment = ".." then -1 else 1

theorem weight_of_plain {segment : Text} (h : PlainPart segment) : weight segment = 1 := by
  obtain ⟨hne, hdot, hdots⟩ := h
  rw [weight, if_neg (not_or.mpr ⟨hne, hdot⟩), if_neg hdots]

/-- No segment adds more than one part, and a plain one does. -/
theorem plain_of_weight {segment : Text} (h : 1 ≤ weight segment) : PlainPart segment := by
  unfold weight at h
  split at h
  · omega
  · rename_i hskip
    split at h
    · omega
    · rename_i hdots
      exact ⟨fun heq => hskip (.inl heq), fun heq => hskip (.inr heq), hdots⟩

theorem weight_le (segment : Text) : weight segment ≤ 1 := by
  unfold weight
  split
  · omega
  · split <;> omega

/-- **The parts are counted** by the segments. -/
theorem sum_weight {segments parts kept : List Text}
    (h : normalizeSegments segments parts = some kept) :
    (kept.length : ℤ) = parts.length + (segments.map weight).sum := by
  induction segments generalizing parts with
  | nil =>
    have hreverse : normalizeSegments [] parts = some parts.reverse := by
      cases parts with
      | nil => rfl
      | cons part parts => rfl
    rw [hreverse] at h
    obtain rfl := Option.some.inj h
    simp
  | cons segment rest ih =>
    rw [normalizeSegments_cons] at h
    rw [List.map_cons, List.sum_cons, weight]
    split at h
    · rename_i hskip
      rw [if_pos hskip, ih h]
      omega
    · rename_i hskip
      rw [if_neg hskip]
      split at h
      · rename_i hdots
        cases parts with
        | nil => exact absurd h (by simp)
        | cons part parts =>
          rw [if_pos hdots, ih h, List.length_cons]
          omega
      · rename_i hdots
        rw [if_neg hdots, ih h, List.length_cons]
        omega

/-- A plain segment at the end is the last part. -/
theorem normalizeSegments_concat {segments parts kept : List Text} {segment : Text}
    (hplain : PlainPart segment)
    (h : normalizeSegments (segments ++ [segment]) parts = some kept) :
    ∃ front, kept = front ++ [segment] := by
  induction segments generalizing parts with
  | nil =>
    have hone : normalizeSegments [segment] parts = some (parts.reverse ++ [segment]) :=
      normalizeSegments_all fun part hpart => List.mem_singleton.mp hpart ▸ hplain
    exact ⟨parts.reverse, (Option.some.inj (hone.symm.trans h)).symm⟩
  | cons first rest ih =>
    rw [List.cons_append, normalizeSegments_cons] at h
    split at h
    · exact ih h
    · split at h
      · cases parts with
        | nil => exact absurd h (by simp)
        | cons part parts => exact ih h
      · exact ih h

/-! ### What trimming does to a path -/

theorem dropWhile_append_slash (front back : Text) :
    (front ++ '/' :: back).dropWhile isSpace = front.dropWhile isSpace ++ '/' :: back := by
  induction front with
  | nil => exact List.dropWhile_cons_of_neg (by decide)
  | cons c front ih =>
    by_cases hc : isSpace c = true
    · rw [List.cons_append, List.dropWhile_cons_of_pos hc, List.dropWhile_cons_of_pos hc, ih]
    · rw [List.cons_append, List.dropWhile_cons_of_neg hc, List.dropWhile_cons_of_neg hc]
      rfl

/-- Only what stands before the first and behind the last slash is trimmed. -/
theorem trim_append_slash (front back : Text) :
    trim (front ++ '/' :: back) = front.dropWhile isSpace ++ '/' :: back.rdropWhile isSpace := by
  have htrim : trim (front ++ '/' :: back) =
      ((front ++ '/' :: back).dropWhile isSpace).rdropWhile isSpace := rfl
  rw [htrim, dropWhile_append_slash, rdropWhile_append_cons (by decide)]

/-- Dropping the space before a path drops it from the first part. -/
theorem splitOn_dropWhile (path : Text) : (path.dropWhile isSpace).splitOn '/' =
    (path.splitOn '/').modifyHead fun part => part.dropWhile isSpace := by
  by_cases hslash : '/' ∈ path
  · obtain ⟨first, rest, rfl, hfirst⟩ := List.eq_append_cons_of_mem hslash
    have hkept : '/' ∉ first.dropWhile isSpace := fun hmem =>
      hfirst ((List.dropWhile_suffix isSpace).subset hmem)
    rw [dropWhile_append_slash, List.splitOn_append_cons_self_of_not_mem hfirst,
      List.splitOn_append_cons_self_of_not_mem hkept]
    rfl
  · have hkept : '/' ∉ path.dropWhile isSpace := fun hmem =>
      hslash ((List.dropWhile_suffix isSpace).subset hmem)
    rw [List.splitOn_eq_singleton hslash, List.splitOn_eq_singleton hkept]
    rfl

/-- A path ends as its last part does. -/
theorem getLast?_of_splitOn {path last : Text} {front : List Text} (hlast : last ≠ [])
    (h : path.splitOn '/' = front ++ [last]) : path.getLast? = last.getLast? := by
  cases hsplit : splitLast '/' path with
  | none =>
    rw [List.splitOn_eq_singleton (splitLast_eq_none.mp hsplit)] at h
    have hone : [] ++ [path] = front ++ [last] := h
    rw [List.singleton_inj.mp (List.append_inj' hone rfl).2]
  | some found =>
    obtain ⟨before, after⟩ := found
    obtain ⟨rfl, hafter⟩ := eq_of_splitLast hsplit
    rw [List.splitOn_append_cons_self, List.splitOn_eq_singleton hafter] at h
    obtain rfl := List.singleton_inj.mp (List.append_inj' h rfl).2
    obtain ⟨c, rest, rfl⟩ := List.exists_cons_of_ne_nil hlast
    rw [List.getLast?_append, List.getLast?_cons_cons, List.getLast?_cons, Option.some_or]

/-- A path does not end with a space exactly if its last part does not. -/
theorem tight_iff {path last : Text} {front : List Text} (hlast : last ≠ [])
    (h : path.splitOn '/' = front ++ [last]) :
    (∀ c ∈ path.getLast?, isSpace c = false) ↔ last.rdropWhile isSpace = last := by
  rw [getLast?_of_splitOn hlast h, List.getLast?_eq_getLast_of_ne_nil hlast,
    List.rdropWhile_eq_self_iff]
  simp [hlast]

/-- A specifier starts with a dot. -/
theorem head_specifierOf (up down : List Text) : (specifierOf up down).head? = some '.' := by
  unfold specifierOf
  dsimp only
  split
  · rename_i hstart
    obtain ⟨rest, hrest⟩ := List.isPrefixOf_iff_prefix.mp hstart
    rw [← hrest]
    rfl
  · rfl

/-- The parts of the text that is resolved, once it is trimmed. -/
theorem splitOn_trim_resolved (hsource : PlainPath source) {front last : Text} (hlast : '/' ∉ last)
    (hfront : front.head? = some '.') :
    (trim (if dirname source ≠ [] then dirname source ++ '/' :: (front ++ '/' :: last)
      else front ++ '/' :: last)).splitOn '/' =
    ((folders source).modifyHead fun part => part.dropWhile isSpace) ++
      (front.splitOn '/' ++ [last.rdropWhile isSpace]) := by
  have hkept : '/' ∉ last.rdropWhile isSpace := fun hmem =>
    hlast ((List.rdropWhile_prefix isSpace last).subset hmem)
  have hback := List.splitOn_eq_singleton hkept
  obtain ⟨-, -, -, -, ⟨hroot, hfolders⟩ | ⟨hroot, hfolders⟩⟩ := splitOn_folders hsource
  · rw [if_neg (not_not.mpr hroot), trim_append_slash, hfolders, List.splitOn_append_cons_self,
      hback]
    cases front with
    | nil => exact absurd hfront (by simp)
    | cons c front =>
      obtain rfl := Option.some.inj hfront
      rw [List.dropWhile_cons_of_neg (by decide)]
      rfl
  · have hassoc : dirname source ++ '/' :: (front ++ '/' :: last) =
        (dirname source ++ '/' :: front) ++ '/' :: last := by simp
    rw [if_pos hroot, hassoc, trim_append_slash, dropWhile_append_slash,
      List.splitOn_append_cons_self, List.splitOn_append_cons_self, hback, splitOn_dropWhile,
      hfolders, List.append_assoc]

/-! ### Reading what is written -/

theorem Normalised.plain {path : Text} (h : Normalised path) : PlainPath path ∧ '\\' ∉ path := by
  obtain ⟨raw, hraw⟩ := h
  exact plainPath_of_normalize hraw

/-- Resolving gives the module exactly if the trimmed parts do. -/
theorem resolveRelative_iff (hsource : PlainPath source) (hback : '\\' ∉ source)
    (hback' : '\\' ∉ dest) {front last : Text} (hlast : '/' ∉ last)
    (hspec : relativeSpecifier source dest = front ++ '/' :: last) :
    resolveRelative source (relativeSpecifier source dest) = .ok dest ↔
      normalizeSegments (((folders source).modifyHead fun part => part.dropWhile isSpace) ++
        (front.splitOn '/' ++ [last.rdropWhile isSpace])) [] = some (dest.splitOn '/') := by
  have hfront : front.head? = some '.' := by
    have hhead := head_specifierOf (dropShared (pathParts (dirname source)) (pathParts dest)).1
      (dropShared (pathParts (dirname source)) (pathParts dest)).2
    rw [← relativeSpecifier_eq, hspec] at hhead
    cases front with
    | nil => exact absurd (Option.some.inj hhead) (by decide)
    | cons c front => exact hhead
  have hslashes : '\\' ∉ trim (if dirname source ≠ [] then
      dirname source ++ '/' :: (front ++ '/' :: last) else front ++ '/' :: last) := by
    have hchars : '\\' ∉ front ++ '/' :: last := by
      rw [← hspec]
      intro hmem
      exact forall_mem_relativeSpecifier (p := fun c => c ≠ '\\') (by decide) (by decide)
        (fun c hc heq => hback' (heq ▸ hc)) '\\' hmem rfl
    intro hmem
    have hmem := trim_subset _ hmem
    split at hmem
    · rcases List.mem_append.mp hmem with hmem | hmem
      · obtain ⟨behind, -, ⟨hnone, -⟩ | heq⟩ := splitOn_dirname source
        · rw [hnone] at hmem
          exact absurd hmem List.not_mem_nil
        · exact hback (heq ▸ List.mem_append_left _ hmem)
      · exact hchars ((List.mem_cons.mp hmem).resolve_left (by decide))
    · exact hchars hmem
  rw [resolveRelative_eq, hspec, normalizeModulePath_ok_iff, map_slashes hslashes,
    splitOn_trim_resolved hsource hlast hfront]
  constructor
  · rintro ⟨parts, hne, hparts, rfl⟩
    have hslash : ∀ part ∈ parts, '/' ∉ part := by
      refine normalizeSegments_forall (fun _ hp => absurd hp List.not_mem_nil) ?_ hparts
      intro part hpart hplain
      rw [← splitOn_trim_resolved hsource hlast hfront] at hpart
      exact not_mem_of_mem_splitOn hpart
    rw [hparts, List.splitOn_intercalate _ hslash hne]
  · intro h
    exact ⟨_, List.splitOn_ne_nil _ _, h, (List.intercalate_splitOn '/').symm⟩

/-- What a specifier ends with, behind its last slash. -/
theorem last_of_specifierOf {front last : Text} (hdown : ∀ part ∈ down, PlainPart part ∧ '/' ∉ part)
    (hlast : '/' ∉ last) (hspec : specifierOf up down = front ++ '/' :: last) :
    (down = [] ∧ last.rdropWhile isSpace = last) ∨ ∃ rest, down = rest ++ [last] := by
  rcases List.eq_nil_or_concat' down with rfl | ⟨rest, part, rfl⟩
  · refine .inl ⟨rfl, ?_⟩
    have hspace : ∀ c ∈ specifierOf up [], isSpace c = false :=
      forall_mem_specifierOf (by decide) (by decide) fun _ hpart => absurd hpart List.not_mem_nil
    refine List.rdropWhile_eq_self_iff.mpr fun hne => ?_
    have hmem : last.getLast hne ∈ specifierOf up [] := by
      rw [hspec]
      exact List.mem_append_right _ (List.mem_cons_of_mem _ (List.getLast_mem hne))
    simp [hspace _ hmem]
  · obtain ⟨dots, -, hsplit⟩ := @splitOn_specifierOf up (rest ++ [part]) (fun p hp => (hdown p hp).2)
      (fun hall => List.concat_ne_nil part rest (List.append_eq_nil_iff.mp hall).2)
    rw [hspec, List.splitOn_append_cons_self, List.splitOn_eq_singleton hlast,
      ← List.append_assoc, ← List.append_assoc] at hsplit
    exact .inr ⟨rest, by rw [List.singleton_inj.mp (List.append_inj' hsplit rfl).2]⟩

/-- Trimming neither loses nor changes a part of what is resolved. -/
theorem plain_of_resolved {folders middle kept : List Text} {last : Text}
    (hplain : ∀ part ∈ folders, PlainPart part)
    (hlast : PlainPart last ∨ last.rdropWhile isSpace = last)
    (hsegments : normalizeSegments (folders ++ (middle ++ [last])) [] = some kept)
    (htrimmed : normalizeSegments ((folders.modifyHead fun part => part.dropWhile isSpace) ++
      (middle ++ [last.rdropWhile isSpace])) [] = some kept) :
    (∀ part ∈ folders.head?, PlainPart (part.dropWhile isSpace)) ∧
      last.rdropWhile isSpace = last := by
  have hcount := sum_weight hsegments
  have hcount' := sum_weight htrimmed
  rw [hcount] at hcount'
  simp only [List.map_append, List.sum_append, List.map_cons, List.map_nil, List.sum_cons,
    List.sum_nil, List.length_nil] at hcount'
  have hfolders : ((folders.modifyHead fun part => part.dropWhile isSpace).map weight).sum ≤
      (folders.map weight).sum := by
    cases folders with
    | nil => exact le_refl _
    | cons part rest =>
      rw [List.modifyHead_cons, List.map_cons, List.map_cons, List.sum_cons, List.sum_cons,
        weight_of_plain (hplain part List.mem_cons_self)]
      have hle := weight_le (part.dropWhile isSpace)
      omega
  have hkept : last.rdropWhile isSpace = last := by
    rcases hlast with hlast | hlast
    · have hle := weight_le (last.rdropWhile isSpace)
      have hone := weight_of_plain hlast
      have hplain' : PlainPart (last.rdropWhile isSpace) := plain_of_weight (by omega)
      rw [← List.append_assoc] at hsegments htrimmed
      obtain ⟨front, rfl⟩ := normalizeSegments_concat hlast hsegments
      obtain ⟨front', hkept⟩ := normalizeSegments_concat hplain' htrimmed
      exact (List.singleton_inj.mp (List.append_inj' hkept rfl).2).symm
    · exact hlast
  refine ⟨?_, hkept⟩
  intro part hpart
  cases folders with
  | nil => exact absurd hpart (by simp)
  | cons first rest =>
    obtain rfl := Option.some.inj hpart
    rw [hkept, List.modifyHead_cons, List.map_cons, List.map_cons, List.sum_cons, List.sum_cons,
      weight_of_plain (hplain first List.mem_cons_self)] at hcount'
    exact plain_of_weight (by omega)

/-- The end of what is resolved is kept exactly if the module is a directory above the importing one
    or does not end with a space. -/
theorem trail_iff {shared : List Text} {last : Text} (hfrom : folders source = shared ++ up)
    (hto : dest.splitOn '/' = shared ++ down) (hheads : ∀ part ∈ up.head?, part ∉ down.head?)
    (hdown : ∀ part ∈ down, PlainPart part ∧ '/' ∉ part)
    (hend : (down = [] ∧ last.rdropWhile isSpace = last) ∨ ∃ rest, down = rest ++ [last]) :
    (dest.splitOn '/' <+: folders source ∨ ∀ c ∈ dest.getLast?, isSpace c = false) ↔
      last.rdropWhile isSpace = last := by
  rcases hend with ⟨rfl, hkept⟩ | ⟨rest, rfl⟩
  · refine iff_of_true (.inl ⟨up, ?_⟩) hkept
    rw [hto, hfrom, List.append_nil]
  · have hlast := (hdown last (List.mem_append_right _ List.mem_cons_self)).1.1
    have hparts : dest.splitOn '/' = (shared ++ rest) ++ [last] := by
      rw [hto, List.append_assoc]
    rw [← tight_iff hlast hparts]
    refine or_iff_right ?_
    -- Something is gone down, and it is no directory that is climbed.
    rintro ⟨more, hprefix⟩
    rw [hto, hfrom, List.append_assoc, List.append_cancel_left_eq] at hprefix
    rw [← hprefix] at hheads
    cases rest with
    | nil => exact absurd rfl (hheads last rfl)
    | cons first rest => exact absurd rfl (hheads first rfl)

/-- Whether a relative specifier is read as the module it was written for. -/
theorem resolves_iff (hsource : Normalised source) (hdest : Normalised dest)
    (hrelative : startsWith (relativeSpecifier source dest) "./" = true ∨
      startsWith (relativeSpecifier source dest) "../" = true) :
    resolveRelative source (relativeSpecifier source dest) = .ok dest ↔
      (dest.splitOn '/' <+: folders source ∨ ∀ c ∈ dest.getLast?, isSpace c = false) ∧
      ∀ part ∈ (folders source).head?, part.dropWhile isSpace ≠ part →
        PlainPart (part.dropWhile isSpace) ∧ part ∉ (dest.splitOn '/').head? := by
  obtain ⟨hsource, hback⟩ := hsource.plain
  obtain ⟨hdest, hback'⟩ := hdest.plain
  obtain ⟨shared, up, down, hfrom, hto, hheads, hspec⟩ := relativeSpecifier_parts hsource hdest
  have hresolved := normalizeSegments_resolved hsource hdest
  obtain ⟨behind, -, hparts, -, -⟩ := splitOn_folders hsource
  have hfolders : ∀ part ∈ folders source, PlainPart part := by
    intro part hpart
    refine hsource part ?_
    rw [hparts]
    exact List.mem_append_left _ hpart
  have hdown : ∀ part ∈ down, PlainPart part ∧ '/' ∉ part := by
    intro part hpart
    have hmem : part ∈ dest.splitOn '/' := by
      rw [hto]
      exact List.mem_append_right _ hpart
    exact ⟨hdest part hmem, not_mem_of_mem_splitOn hmem⟩
  obtain ⟨front, last, hlast, heq⟩ : ∃ front last, '/' ∉ last ∧
      relativeSpecifier source dest = front ++ '/' :: last := by
    have hslash : '/' ∈ relativeSpecifier source dest := by
      rcases hrelative with h | h
      · exact (List.isPrefixOf_iff_prefix.mp h).subset (by decide)
      · exact (List.isPrefixOf_iff_prefix.mp h).subset (by decide)
    cases hsplit : splitLast '/' (relativeSpecifier source dest) with
    | none => exact absurd hslash (splitLast_eq_none.mp hsplit)
    | some found =>
      obtain ⟨front, last⟩ := found
      obtain ⟨heq, hlast⟩ := eq_of_splitLast hsplit
      exact ⟨front, last, hlast, heq⟩
  have hend := last_of_specifierOf hdown hlast (hspec.symm.trans heq)
  have hsplit : (specifierOf up down).splitOn '/' = front.splitOn '/' ++ [last] := by
    rw [← hspec, heq, List.splitOn_append_cons_self, List.splitOn_eq_singleton hlast]
  rw [resolveRelative_iff hsource hback hback' hlast heq,
    trail_iff hfrom hto hheads hdown hend]
  rw [hspec, hsplit] at hresolved
  constructor
  · intro h
    have hplain : PlainPart last ∨ last.rdropWhile isSpace = last := by
      rcases hend with ⟨-, hkept⟩ | ⟨rest, rfl⟩
      · exact .inr hkept
      · exact .inl (hdown last (List.mem_append_right _ List.mem_cons_self)).1
    obtain ⟨hhead, hkept⟩ := plain_of_resolved hfolders hplain hresolved h
    refine ⟨hkept, fun part hpart hspace => ⟨hhead part hpart, fun hsame => hspace ?_⟩⟩
    cases shared with
    | nil =>
      rw [hfrom, List.nil_append] at hpart
      rw [hto, List.nil_append] at hsame
      exact absurd hsame (hheads part hpart)
    | cons first shared =>
      -- The directory is shared with the module, and its trimmed name is resolved to.
      rw [hfrom] at hpart
      obtain rfl := Option.some.inj hpart
      have hfirst := hhead first (by rw [hfrom]; rfl)
      have hclimb := @normalizeSegments_climb up down (first.dropWhile isSpace :: shared) up (by
        intro part hpart
        rcases List.mem_cons.mp hpart with rfl | hpart
        · exact hfirst
        · refine hfolders part ?_
          rw [hfrom]
          exact List.mem_cons_of_mem _ hpart) rfl hdown
      rw [hsplit] at hclimb
      rw [hfrom, hkept] at h
      have hboth := Option.some.inj (hclimb.symm.trans h)
      rw [hto] at hboth
      exact (List.cons.inj hboth).1
  · rintro ⟨hkept, hlead⟩
    rw [hkept]
    cases hcase : folders source with
    | nil =>
      rw [hcase] at hresolved
      exact hresolved
    | cons part rest =>
      rw [hcase] at hresolved hfrom
      rw [List.modifyHead_cons]
      by_cases hspace : part.dropWhile isSpace = part
      · rw [hspace]
        exact hresolved
      · obtain ⟨hplain, hother⟩ := hlead part (by rw [hcase]; rfl) hspace
        cases shared with
        | nil =>
          -- All directories are climbed, whatever their names.
          rw [List.nil_append] at hfrom hto
          have hclimb := @normalizeSegments_climb up down [] (part.dropWhile isSpace :: rest) (by
            intro p hp
            rcases List.mem_cons.mp hp with rfl | hp
            · exact hplain
            · refine hfolders p ?_
              rw [hcase]
              exact List.mem_cons_of_mem _ hp) (by rw [← hfrom]; rfl) hdown
          rw [List.nil_append, List.nil_append, hsplit] at hclimb
          rw [hclimb, hto]
        | cons first shared =>
          obtain rfl := (List.cons.inj hfrom).1
          exact absurd (by rw [hto]; rfl) hother

/-- **Written and read**: between two paths that normalising gives, the specifier is relative and is
    read as the module it was written for, exactly if `RoundTrips` holds. -/
theorem relativeSpecifier_roundTrips (hsource : Normalised source) (hdest : Normalised dest) :
    ((startsWith (relativeSpecifier source dest) "./" = true ∨
        startsWith (relativeSpecifier source dest) "../" = true) ∧
      resolveRelative source (relativeSpecifier source dest) = .ok dest) ↔
      RoundTrips source dest := by
  obtain ⟨shared, up, down, hfrom, hto, hheads, hspec⟩ :=
    relativeSpecifier_parts hsource.plain.1 hdest.plain.1
  have hdown : ∀ part ∈ down, PlainPart part ∧ '/' ∉ part := by
    intro part hpart
    have hmem : part ∈ dest.splitOn '/' := by
      rw [hto]
      exact List.mem_append_right _ hpart
    exact ⟨hdest.plain.1 part hmem, not_mem_of_mem_splitOn hmem⟩
  have hhidden : (up = [] → ∀ part ∈ down.head?, part.head? ≠ some '.') ↔
      ∀ part rest, dest.splitOn '/' = folders source ++ part :: rest → part.head? ≠ some '.' := by
    rw [hfrom, hto]
    constructor
    · intro h part rest heq
      rw [List.append_assoc, List.append_cancel_left_eq] at heq
      cases up with
      | nil => exact h rfl part (by rw [heq]; rfl)
      | cons first up => exact absurd (by rw [heq]; rfl) (hheads first rfl)
    · rintro h rfl part hpart
      obtain ⟨rest, rfl⟩ := List.head?_eq_some_iff.mp hpart
      exact h part rest (by rw [List.append_nil])
  have hparent : ¬ (up.length = 1 ∧ down = []) ↔
      ∀ part, folders source ≠ dest.splitOn '/' ++ [part] := by
    rw [hfrom, hto, not_iff_comm]
    push Not
    constructor
    · rintro ⟨part, heq⟩
      rw [List.append_assoc, List.append_cancel_left_eq] at heq
      cases down with
      | nil => exact ⟨by rw [heq]; rfl, rfl⟩
      | cons first down =>
        rw [heq] at hheads
        exact absurd rfl (hheads first rfl)
    · rintro ⟨hlen, rfl⟩
      obtain ⟨part, rfl⟩ := List.length_eq_one_iff.mp hlen
      exact ⟨part, by rw [List.append_nil]⟩
  have hrelative := @relative_specifierOf up down hdown
  rw [← hspec, hhidden, hparent] at hrelative
  constructor
  · rintro ⟨hstart, hread⟩
    obtain ⟨hhidden, hparent⟩ := hrelative.mp hstart
    obtain ⟨htrail, hlead⟩ := (resolves_iff hsource hdest hstart).mp hread
    exact ⟨hhidden, hparent, htrail, hlead⟩
  · intro h
    have hstart := hrelative.mpr ⟨h.notHidden, h.notParent⟩
    exact ⟨hstart, (resolves_iff hsource hdest hstart).mpr ⟨h.trail, h.lead⟩⟩

/-- From `lib/a.js`, `util/b.js` is reached by `../util/b.js`. -/
theorem roundTrips_sibling : RoundTrips "lib/a.js" "util/b.js" :=
  (relativeSpecifier_roundTrips ⟨"lib/a.js", by decide +kernel⟩
    ⟨"util/b.js", by decide +kernel⟩).mp ⟨by decide +kernel, by decide +kernel⟩

/-- From `packages/notes/a.js`, the specifier for `packages/notes/.hidden.js` is `.hidden.js`. -/
theorem hidden_not_relative : ¬ ∀ source dest, Normalised source → Normalised dest →
    (startsWith (relativeSpecifier source dest) "./" = true ∨
      startsWith (relativeSpecifier source dest) "../" = true) ∧
    resolveRelative source (relativeSpecifier source dest) = .ok dest := by
  intro h
  have hstart := (h "packages/notes/a.js" "packages/notes/.hidden.js"
    ⟨"packages/notes/a.js", by decide +kernel⟩
    ⟨"packages/notes/.hidden.js", by decide +kernel⟩).1
  have hwritten : relativeSpecifier "packages/notes/a.js" "packages/notes/.hidden.js" =
      ".hidden.js" := by decide +kernel
  rw [hwritten] at hstart
  exact absurd hstart (by decide)

end KodyCelld.Execute
