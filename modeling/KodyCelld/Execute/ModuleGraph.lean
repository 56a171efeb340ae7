import KodyCelld.Execute.NpmResolver
import KodyCelld.Lib.Texts
import KodyCelld.Packages.Manifest

namespace KodyCelld.Execute

open KodyCelld.Lib KodyCelld.Packages

/-!
# Paths in the module graph (`execute/module-graph.ts`)

`relativeSpecifier` writes the specifier that reaches one module from another, and
`resolveRelative` is how a specifier is read from the directory of the importing module.

* `normalizeModulePath_ok_iff` — the parts of a path decide what it normalises to;
* `resolveRelative_relativeSpecifier` — the written specifier is read as the module it was written
  for, exactly if no part of that module's path is empty or a dot.
-/

/-- The module a specifier names, from the directory of the importing module. -/
def resolveRelative (source specifier : Text) : Except Thrown Text :=
  let base := dirname source
  normalizeModulePath (if base ≠ [] then base ++ '/' :: specifier else specifier)

/-! ### Parts of paths -/

/-- A part of a path that normalising keeps. -/
def PlainPart (part : Text) : Prop := part ≠ [] ∧ part ≠ "." ∧ part ≠ ".."

/-- A path whose parts are all kept. -/
def PlainPath (path : Text) : Prop := ∀ part ∈ path.splitOn '/', PlainPart part

/-- A path without the characters that normalising looks at, the slash apart. -/
def TidyPath (path : Text) : Prop := ∀ c ∈ path, isSpace c = false ∧ c ≠ '\\'

/-- One round over the parts. -/
theorem normalizeSegments_cons (segment : Text) (rest parts : List Text) :
    normalizeSegments (segment :: rest) parts =
      if segment = [] ∨ segment = "." then normalizeSegments rest parts
      else if segment = ".." then
        match parts with
        | [] => none
        | _ :: parts => normalizeSegments rest parts
      else normalizeSegments rest (segment :: parts) := by
  cases parts with
  | nil => rfl
  | cons part parts => rfl

theorem normalizeSegments_skip {segment : Text} (h : segment = [] ∨ segment = ".")
    (rest parts : List Text) :
    normalizeSegments (segment :: rest) parts = normalizeSegments rest parts := by
  rw [normalizeSegments_cons, if_pos h]

/-- Plain parts are pushed. -/
theorem normalizeSegments_plain {front : List Text} (h : ∀ part ∈ front, PlainPart part)
    (rest parts : List Text) :
    normalizeSegments (front ++ rest) parts = normalizeSegments rest (front.reverse ++ parts) := by
  induction front generalizing parts with
  | nil => rfl
  | cons part front ih =>
    obtain ⟨hne, hdot, hdots⟩ := h part List.mem_cons_self
    rw [List.cons_append, normalizeSegments_cons, if_neg (not_or.mpr ⟨hne, hdot⟩), if_neg hdots,
      ih fun p hp => h p (List.mem_cons_of_mem part hp), List.reverse_cons, List.append_assoc]
    rfl

/-- Two dots each take a part back. -/
theorem normalizeSegments_ups (up parts rest : List Text) :
    normalizeSegments (up.map (fun _ => (".." : Text)) ++ rest) (up.reverse ++ parts) =
      normalizeSegments rest parts := by
  have hback : ∀ (n : ℕ) (taken : List Text), taken.length = n →
      normalizeSegments (List.replicate n (".." : Text) ++ rest) (taken ++ parts) =
        normalizeSegments rest parts := by
    intro n
    induction n with
    | zero =>
      intro taken hlen
      rw [List.length_eq_zero_iff.mp hlen]
      rfl
    | succ n ih =>
      intro taken hlen
      cases taken with
      | nil => exact absurd hlen (by simp)
      | cons part taken =>
        rw [List.replicate_succ, List.cons_append, List.cons_append, normalizeSegments_cons,
          if_neg (by decide), if_pos rfl]
        exact ih taken (by simpa using hlen)
  rw [List.map_const', ← List.length_reverse]
  exact hback _ _ rfl

/-- Joining texts adds only the separator. -/
theorem forall_mem_intercalate {p : Char → Prop} {sep : Char} (hsep : p sep) {parts : List Text}
    (hparts : ∀ part ∈ parts, ∀ c ∈ part, p c) : ∀ c ∈ [sep].intercalate parts, p c := by
  induction parts with
  | nil => exact fun c hc => absurd hc List.not_mem_nil
  | cons part parts ih =>
    cases parts with
    | nil => simpa [List.intercalate] using hparts part List.mem_cons_self
    | cons next parts =>
      rw [List.intercalate_cons_cons]
      intro c hc
      rcases List.mem_append.mp hc with hc | hc
      · rcases List.mem_append.mp hc with hc | hc
        · exact hparts part List.mem_cons_self c hc
        · rw [List.mem_singleton.mp hc]
          exact hsep
      · exact ih (fun p hp => hparts p (List.mem_cons_of_mem _ hp)) c hc

/-- What is kept was kept before, or is a plain segment. -/
theorem normalizeSegments_forall {p : Text → Prop} {segments parts kept : List Text}
    (hparts : ∀ part ∈ parts, p part) (hsegments : ∀ s ∈ segments, PlainPart s → p s)
    (h : normalizeSegments segments parts = some kept) : ∀ part ∈ kept, p part := by
  induction segments generalizing parts with
  | nil =>
    have hreverse : normalizeSegments [] parts = some parts.reverse := by
      cases parts with
      | nil => rfl
      | cons part parts => rfl
    rw [hreverse] at h
    obtain rfl := Option.some.inj h
    exact fun part hpart => hparts part (List.mem_reverse.mp hpart)
  | cons segment rest ih =>
    have hrest : ∀ s ∈ rest, PlainPart s → p s := fun s hs =>
      hsegments s (List.mem_cons_of_mem _ hs)
    rw [normalizeSegments_cons] at h
    split at h
    · exact ih hparts hrest h
    · rename_i hskip
      rw [not_or] at hskip
      split at h
      · cases parts with
        | nil => exact absurd h (by simp)
        | cons part parts =>
          exact ih (fun q hq => hparts q (List.mem_cons_of_mem _ hq)) hrest h
      · rename_i hdots
        refine ih ?_ hrest h
        intro q hq
        rcases List.mem_cons.mp hq with rfl | hq
        · exact hsegments q List.mem_cons_self ⟨hskip.1, hskip.2, hdots⟩
        · exact hparts q hq

/-- A leading `./` is a part that is skipped anyway, and a leading slash leaves an empty one. -/
theorem normalizeSegments_leading (text : Text) : normalizeSegments
    ((match dropDotSlash text with | '/' :: rest => rest | _ => dropDotSlash text).splitOn '/') [] =
      normalizeSegments (text.splitOn '/') [] := by
  have hdot : ∀ text : Text, normalizeSegments ((dropDotSlash text).splitOn '/') [] =
      normalizeSegments (text.splitOn '/') [] := by
    intro text
    unfold dropDotSlash
    split
    · rename_i rest
      have hsplit : ('.' :: '/' :: rest : Text).splitOn '/' = ['.'] :: rest.splitOn '/' :=
        List.splitOn_append_cons_self_of_not_mem (show '/' ∉ ['.'] by decide) rest
      rw [hsplit, @normalizeSegments_skip ['.'] (.inr rfl)]
    · rfl
  have hslash : ∀ text : Text, normalizeSegments
      ((match text with | '/' :: rest => rest | _ => text).splitOn '/') [] =
      normalizeSegments (text.splitOn '/') [] := by
    intro text
    split
    · rename_i rest
      have hsplit : ('/' :: rest : Text).splitOn '/' = [] :: rest.splitOn '/' :=
        List.splitOn_append_cons_self_of_not_mem List.not_mem_nil rest
      rw [hsplit, @normalizeSegments_skip [] (.inl rfl)]
    · rfl
  exact (hslash (dropDotSlash text)).trans (hdot text)

/-- **The parts of a path** decide what it normalises to, once it is trimmed and its backslashes are
    slashes. -/
theorem normalizeModulePath_ok_iff {path out : Text} : normalizeModulePath path = .ok out ↔
    ∃ parts, parts ≠ [] ∧ normalizeSegments
      (((trim path).map fun c => if c = '\\' then '/' else c).splitOn '/') [] = some parts ∧
      out = ['/'].intercalate parts := by
  have hparts := normalizeSegments_leading ((trim path).map fun c => if c = '\\' then '/' else c)
  unfold normalizeModulePath
  dsimp only
  generalize hkept : normalizeSegments _ _ = kept
  rw [show _ = kept from hparts.symm.trans hkept]
  rcases kept with _ | _ | ⟨part, parts⟩
  · simp
  · simp
  · simp [eq_comm]

theorem map_slashes {text : Text} (h : '\\' ∉ text) :
    (text.map fun c => if c = '\\' then '/' else c) = text :=
  (List.map_congr_left fun _ hc => if_neg fun heq : _ = '\\' => h (heq ▸ hc)).trans
    (List.map_id text)

/-- A path that normalising gives is plain, and has no backslash. -/
theorem plainPath_of_normalize {path normal : Text} (h : normalizeModulePath path = .ok normal) :
    PlainPath normal ∧ '\\' ∉ normal := by
  obtain ⟨parts, hne, hparts, rfl⟩ := normalizeModulePath_ok_iff.mp h
  have hslashes : ∀ c ∈ (trim path).map (fun c => if c = '\\' then '/' else c), c ≠ '\\' := by
    intro c hc
    obtain ⟨d, -, rfl⟩ := List.mem_map.mp hc
    split
    · decide
    · assumption
  have hkept := normalizeSegments_forall
    (p := fun part => PlainPart part ∧ '/' ∉ part ∧ ∀ c ∈ part, c ≠ '\\')
    (fun _ hp => absurd hp List.not_mem_nil)
    (fun s hs hplain => ⟨hplain, not_mem_of_mem_splitOn hs,
      fun c hc => hslashes c (mem_of_mem_splitOn hs hc)⟩) hparts
  constructor
  · intro part hpart
    rw [List.splitOn_intercalate _ (fun p hp => (hkept p hp).2.1) hne] at hpart
    exact (hkept part hpart).1
  · intro hmem
    exact forall_mem_intercalate (p := fun c => c ≠ '\\') (by decide)
      (fun part hpart => (hkept part hpart).2.2) '\\' hmem rfl

/-! ### Writing a specifier and reading it -/

/-- What `dropShared` leaves, behind what both paths start with. -/
theorem dropShared_split (as bs : List Text) : ∃ shared,
    as = shared ++ (dropShared as bs).1 ∧ bs = shared ++ (dropShared as bs).2 := by
  induction as generalizing bs with
  | nil => exact ⟨[], by simp [dropShared], by simp [dropShared]⟩
  | cons a as ih =>
    cases bs with
    | nil => exact ⟨[], rfl, rfl⟩
    | cons b bs =>
      rw [dropShared]
      split
      · rename_i hsame
        obtain ⟨shared, has, hbs⟩ := ih bs
        exact ⟨a :: shared, congrArg (a :: ·) has, by rw [← hsame]; exact congrArg (a :: ·) hbs⟩
      · exact ⟨[], rfl, rfl⟩

theorem pathParts_of_plain {path : Text} (h : PlainPath path) :
    pathParts path = path.splitOn '/' := by
  unfold pathParts
  rw [List.filter_eq_self]
  intro part hpart
  rw [Bool.not_eq_true', List.isEmpty_eq_false_iff]
  exact (h part hpart).1

/-- A path around its last slash. -/
theorem dirname_append {before after : Text} (h : '/' ∉ after) :
    dirname (before ++ '/' :: after) = before := by
  have hreverse : (before ++ '/' :: after).reverse = after.reverse ++ '/' :: before.reverse := by
    simp
  unfold dirname
  rw [hreverse, List.dropWhile_append_of_pos, List.dropWhile_cons_of_neg (by decide)]
  · simp
  · intro c hc
    have hne : c ≠ '/' := fun heq => h (heq ▸ List.mem_reverse.mp hc)
    simp [hne]

theorem dirname_of_not_mem {path : Text} (h : '/' ∉ path) : dirname path = [] := by
  unfold dirname
  have hall : path.reverse.dropWhile (fun c => decide (c ≠ '/')) = [] := by
    rw [List.dropWhile_eq_nil_iff]
    intro c hc
    have hne : c ≠ '/' := fun heq => h (heq ▸ List.mem_reverse.mp hc)
    simp [hne]
  rw [hall]
  rfl

/-- The parts of a directory come first in a path: all but the last. -/
theorem splitOn_dirname (path : Text) : ∃ last, '/' ∉ last ∧
    ((dirname path = [] ∧ path = last) ∨ path = dirname path ++ '/' :: last) := by
  cases h : splitLast '/' path with
  | none =>
    have hnone := splitLast_eq_none.mp h
    exact ⟨path, hnone, .inl ⟨dirname_of_not_mem hnone, rfl⟩⟩
  | some found =>
    obtain ⟨before, after⟩ := found
    obtain ⟨rfl, hafter⟩ := eq_of_splitLast h
    refine ⟨after, hafter, .inr ?_⟩
    rw [dirname_append hafter]

/-- Plain parts alone are what they are. -/
theorem normalizeSegments_all {parts kept : List Text} (h : ∀ part ∈ parts, PlainPart part) :
    normalizeSegments parts kept = some (kept.reverse ++ parts) := by
  have hpush := normalizeSegments_plain h [] kept
  rw [List.append_nil] at hpush
  rw [hpush]
  cases hrest : parts.reverse ++ kept with
  | nil =>
    obtain ⟨hparts, rfl⟩ := List.append_eq_nil_iff.mp hrest
    rw [List.reverse_eq_nil_iff] at hparts
    subst hparts
    rfl
  | cons part more =>
    have hreverse : normalizeSegments [] (part :: more) = some (part :: more).reverse := rfl
    rw [hreverse, ← hrest, List.reverse_append, List.reverse_reverse]

/-- A normalised path without space around it is what it normalises to. -/
theorem normalizeModulePath_again {raw path : Text} (h : normalizeModulePath raw = .ok path)
    (htrim : trim path = path) : normalizeModulePath path = .ok path := by
  obtain ⟨hplain, hback⟩ := plainPath_of_normalize h
  rw [normalizeModulePath_ok_iff, htrim, map_slashes hback]
  exact ⟨path.splitOn '/', List.splitOn_ne_nil _ _, normalizeSegments_all hplain,
    (List.intercalate_splitOn '/').symm⟩

/-- The specifier that climbs out of the directories `up` and down to `down`. -/
def specifierOf (up down : List Text) : Text :=
  let spec := ['/'].intercalate (up.map (fun _ => (".." : Text)) ++ down)
  if startsWith spec "." then spec else "./" ++ spec

theorem relativeSpecifier_eq (source dest : Text) : relativeSpecifier source dest =
    specifierOf (dropShared (pathParts (dirname source)) (pathParts dest)).1
      (dropShared (pathParts (dirname source)) (pathParts dest)).2 := rfl

/-- The parts of the specifier, one more dot apart. -/
theorem splitOn_specifierOf {up down : List Text} (hdown : ∀ part ∈ down, '/' ∉ part)
    (hall : up.map (fun _ => (".." : Text)) ++ down ≠ []) :
    ∃ dots : List Text, (∀ part ∈ dots, part = ("." : Text)) ∧ (specifierOf up down).splitOn '/' =
      dots ++ (up.map (fun _ => (".." : Text)) ++ down) := by
  have hslash : ∀ part ∈ up.map (fun _ => (".." : Text)) ++ down, '/' ∉ part := by
    intro part hpart
    rcases List.mem_append.mp hpart with hup | hpart
    · obtain ⟨_, -, rfl⟩ := List.mem_map.mp hup
      decide
    · exact hdown part hpart
  unfold specifierOf
  generalize up.map (fun _ => (".." : Text)) ++ down = all at hslash hall ⊢
  have hsplit : (['/'].intercalate all).splitOn '/' = all := List.splitOn_intercalate _ hslash hall
  dsimp only
  split
  · exact ⟨[], fun _ h => absurd h List.not_mem_nil, hsplit⟩
  · refine ⟨[['.']], fun _ h => List.mem_singleton.mp h, ?_⟩
    have hdots : ("./" ++ ['/'].intercalate all : Text).splitOn '/' =
        ['.'] :: (['/'].intercalate all).splitOn '/' :=
      List.splitOn_append_cons_self_of_not_mem (show '/' ∉ ['.'] by decide) _
    rw [hdots, hsplit]
    rfl

/-- Reading a specifier climbs and goes down. -/
theorem normalizeSegments_specifier {up down : List Text} (hdown : ∀ part ∈ down, '/' ∉ part)
    (parts : List Text) : normalizeSegments ((specifierOf up down).splitOn '/') parts =
      normalizeSegments (up.map (fun _ => (".." : Text)) ++ down) parts := by
  by_cases hall : up.map (fun _ => (".." : Text)) ++ down = []
  · -- An importing module in the directory that is named: the specifier is `./`.
    have hspec : specifierOf up down = "./" := by
      unfold specifierOf
      rw [hall]
      rfl
    have hsplit : ("./" : Text).splitOn '/' = [['.'], []] := by decide
    rw [hspec, hsplit, hall, @normalizeSegments_skip ['.'] (.inr rfl)]
    exact @normalizeSegments_skip [] (.inl rfl) [] parts
  · obtain ⟨dots, hdots, hsplit⟩ := splitOn_specifierOf hdown hall
    rw [hsplit]
    clear hsplit
    induction dots with
    | nil => rfl
    | cons dot dots ih =>
      obtain rfl := hdots dot List.mem_cons_self
      rw [List.cons_append, @normalizeSegments_skip "." (.inr rfl)]
      exact ih fun part hpart => hdots part (List.mem_cons_of_mem _ hpart)

/-- A specifier is written with dots, slashes and the characters of the names it goes down. -/
theorem forall_mem_specifierOf {p : Char → Prop} (hdot : p '.') (hslash : p '/')
    {up down : List Text} (hdown : ∀ part ∈ down, ∀ c ∈ part, p c) :
    ∀ c ∈ specifierOf up down, p c := by
  have hspec : ∀ c ∈ ['/'].intercalate (up.map (fun _ => (".." : Text)) ++ down), p c := by
    refine forall_mem_intercalate hslash fun part hpart => ?_
    rcases List.mem_append.mp hpart with hup | hpart
    · obtain ⟨_, -, rfl⟩ := List.mem_map.mp hup
      show ∀ c ∈ ['.', '.'], p c
      simpa using hdot
    · exact hdown part hpart
  unfold specifierOf
  dsimp only
  split
  · exact hspec
  · show ∀ c ∈ '.' :: '/' :: _, p c
    simpa [hdot, hslash] using hspec

theorem forall_mem_relativeSpecifier {p : Char → Prop} (hdot : p '.') (hslash : p '/')
    {source dest : Text} (hdest : ∀ c ∈ dest, p c) : ∀ c ∈ relativeSpecifier source dest, p c := by
  obtain ⟨shared, -, hsplit⟩ := dropShared_split (pathParts (dirname source)) (pathParts dest)
  rw [relativeSpecifier_eq]
  refine forall_mem_specifierOf hdot hslash fun part hpart c hc => ?_
  have hmem : part ∈ pathParts dest := by
    rw [hsplit]
    exact List.mem_append_right _ hpart
  exact hdest c (mem_of_mem_splitOn (List.mem_of_mem_filter hmem) hc)

/-- The specifier between tidy paths is tidy. -/
theorem tidy_relativeSpecifier {source dest : Text} (hdest : TidyPath dest) :
    TidyPath (relativeSpecifier source dest) :=
  forall_mem_relativeSpecifier (by decide) (by decide) hdest

/-- The text that `resolveRelative` normalises. -/
theorem resolveRelative_eq (source specifier : Text) : resolveRelative source specifier =
    normalizeModulePath
      (if dirname source ≠ [] then dirname source ++ '/' :: specifier else specifier) := rfl

/-- The directories above a module. -/
def folders (path : Text) : List Text := (path.splitOn '/').dropLast

/-- The directories above a module of a plain path are the parts of its directory. -/
theorem splitOn_folders {source : Text} (hsource : PlainPath source) : ∃ last, '/' ∉ last ∧
    source.splitOn '/' = folders source ++ [last] ∧ pathParts (dirname source) = folders source ∧
    (dirname source = [] ∧ folders source = [] ∨
      dirname source ≠ [] ∧ (dirname source).splitOn '/' = folders source) := by
  obtain ⟨last, hlast, hsplit⟩ := splitOn_dirname source
  refine ⟨last, hlast, ?_⟩
  rcases hsplit with ⟨hnone, heq⟩ | heq
  · have hone : source.splitOn '/' = [last] := by
      rw [heq, List.splitOn_eq_singleton hlast]
    have hfolders : folders source = [] := by
      rw [folders, hone]
      rfl
    rw [hfolders, hone, hnone]
    exact ⟨rfl, by decide, .inl ⟨rfl, rfl⟩⟩
  · have hparts : source.splitOn '/' = (dirname source).splitOn '/' ++ [last] := by
      rw [← List.splitOn_eq_singleton hlast, ← List.splitOn_append_cons_self, ← heq]
    have hfolders : folders source = (dirname source).splitOn '/' := by
      rw [folders, hparts, List.dropLast_concat]
    have hplain : PlainPath (dirname source) := by
      intro part hpart
      refine hsource part ?_
      rw [hparts]
      exact List.mem_append_left _ hpart
    refine ⟨by rw [hfolders, hparts], by rw [hfolders, pathParts_of_plain hplain], .inr ⟨?_,
      hfolders.symm⟩⟩
    intro hroot
    have hempty : [] ∈ (dirname source).splitOn '/' := by
      rw [hroot]
      decide
    exact (hplain [] hempty).1 rfl

/-- Reading a specifier behind directories gives up as many of them as it climbs. -/
theorem normalizeSegments_climb {up down shared left : List Text}
    (hplain : ∀ part ∈ shared ++ left, PlainPart part) (hlen : left.length = up.length)
    (hdown : ∀ part ∈ down, PlainPart part ∧ '/' ∉ part) :
    normalizeSegments (shared ++ left ++ (specifierOf up down).splitOn '/') [] =
      some (shared ++ down) := by
  have hups : up.map (fun _ => (".." : Text)) = left.map (fun _ => (".." : Text)) := by
    rw [List.map_const', List.map_const', hlen]
  rw [normalizeSegments_plain hplain, List.append_nil,
    normalizeSegments_specifier fun p hp => (hdown p hp).2, hups, List.reverse_append,
    normalizeSegments_ups, normalizeSegments_all fun p hp => (hdown p hp).1,
    List.reverse_reverse]

/-- The parts of the path of a specifier, from a plain path to a plain one, resolve to those of the
    latter. -/
theorem normalizeSegments_resolved {source dest : Text} (hsource : PlainPath source)
    (hdest : PlainPath dest) : normalizeSegments
      (folders source ++ (relativeSpecifier source dest).splitOn '/') [] =
        some (dest.splitOn '/') := by
  obtain ⟨last, -, hparts, hfolders, -⟩ := splitOn_folders hsource
  obtain ⟨shared, hfrom, hto⟩ := dropShared_split (pathParts (dirname source)) (pathParts dest)
  rw [relativeSpecifier_eq]
  rw [hfolders, pathParts_of_plain hdest] at hfrom hto ⊢
  generalize dropShared (folders source) (dest.splitOn '/') = both at hfrom hto
  rw [hfrom, hto]
  refine normalizeSegments_climb ?_ rfl fun part hpart => ?_
  · intro part hpart
    refine hsource part ?_
    rw [hparts, hfrom]
    exact List.mem_append_left _ hpart
  · have hmem : part ∈ dest.splitOn '/' := by
      rw [hto]
      exact List.mem_append_right _ hpart
    exact ⟨hdest part hmem, not_mem_of_mem_splitOn hmem⟩

/-- The parts of the text that is resolved: those of the directory, then those of the specifier. -/
theorem splitOn_resolved {source : Text} (hsource : PlainPath source) (specifier : Text) :
    (if dirname source ≠ [] then dirname source ++ '/' :: specifier else specifier).splitOn '/' =
      folders source ++ specifier.splitOn '/' := by
  obtain ⟨last, -, -, -, ⟨hroot, hfolders⟩ | ⟨hroot, hfolders⟩⟩ := splitOn_folders hsource
  · rw [if_neg (not_not.mpr hroot), hfolders]
    rfl
  · rw [if_pos hroot, List.splitOn_append_cons_self, hfolders]

/-- **Written, then read**: from a plain path, the specifier of a module is read as that module,
    exactly if its path is plain. -/
theorem resolveRelative_relativeSpecifier {source dest : Text} (hsource : PlainPath source)
    (htidy : TidyPath source) (htidy' : TidyPath dest) :
    resolveRelative source (relativeSpecifier source dest) = .ok dest ↔ PlainPath dest := by
  obtain ⟨last, hlast, hsplit⟩ := splitOn_dirname source
  have hspec : TidyPath (relativeSpecifier source dest) := tidy_relativeSpecifier htidy'
  have hbase : TidyPath (if dirname source ≠ [] then
      dirname source ++ '/' :: relativeSpecifier source dest else relativeSpecifier source
        dest) := by
    split
    · intro c hc
      rcases List.mem_append.mp hc with hc | hc
      · rcases hsplit with ⟨hnone, -⟩ | heq
        · rw [hnone] at hc
          exact absurd hc List.not_mem_nil
        · exact htidy c (heq ▸ List.mem_append_left _ hc)
      · rcases List.mem_cons.mp hc with rfl | hc
        · decide
        · exact hspec c hc
    · exact hspec
  rw [resolveRelative_eq]
  refine ⟨fun h => (plainPath_of_normalize h).1, fun hdest => ?_⟩
  rw [normalizeModulePath_ok_iff, trim_of_spaceless fun c hc => (hbase c hc).1,
    map_slashes fun hmem => (hbase _ hmem).2 rfl, splitOn_resolved hsource,
    normalizeSegments_resolved hsource hdest]
  exact ⟨_, List.splitOn_ne_nil _ _, rfl, (List.intercalate_splitOn '/').symm⟩

end KodyCelld.Execute
