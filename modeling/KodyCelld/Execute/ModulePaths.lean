import KodyCelld.Execute.RelativePaths

namespace KodyCelld.Execute

open KodyCelld.Lib KodyCelld.Packages

/-!
# What module paths normalise to (`packages/manifest.ts`)

`normalizeModulePath` against a walk through directories, from the package root on.

* `walk` — the file or directory that segments lead to, or none above the root;
* `normalizeSegments_eq_walk` — the loop of the source walks;
* `normalises_iff` — the paths whose normalised form is its own normalised form.
-/

/-! ### Walking -/

/-- Where a segment leads from a directory; nothing is above the root. -/
def enter (dir : List Text) (segment : Text) : Option (List Text) :=
  if segment = [] ∨ segment = "." then some dir
  else if segment = ".." then if dir = [] then none else some dir.dropLast
  else some (dir ++ [segment])

def walk (dir segments : List Text) : Option (List Text) := segments.foldlM enter dir

/-- The segments of a path, which may be written with backslashes. -/
def segmentsOf (path : Text) : List Text :=
  ((trim path).map fun c => if c = '\\' then '/' else c).splitOn '/'

/-- A path that is above the root at one of its segments. -/
def LeavesRoot (segments : List Text) : Prop :=
  ∃ front back, segments = front ++ (".." : Text) :: back ∧ walk [] front = some []

/-- **A path is normalised**: what is accepted of it names its file plainly and once and for all, and
    what leaves the root is rejected. -/
structure Normalises (path : Text) : Prop where
  names : ∀ out, normalizeModulePath path = .ok out → out ≠ [] ∧ out.head? ≠ some '/' ∧
    (∀ part ∈ out.splitOn '/', part ∉ ([[], ".", ".."] : List Text)) ∧
    walk [] (segmentsOf path) = some (out.splitOn '/')
  again : ∀ out, normalizeModulePath path = .ok out → normalizeModulePath out = .ok out
  rejected : LeavesRoot (segmentsOf path) → ∃ e, normalizeModulePath path = .error e

/-- **No space at the edges**: the first name that no later segment takes back does not start with
    one, and the last does not end with one. -/
structure EdgesTight (segments : List Text) : Prop where
  first : ∀ front name back, segments = front ++ name :: back → PlainPart name →
    walk [] front = some [] → walk [] back ≠ none → ∀ c ∈ name.head?, isSpace c = false
  last : ∀ front name back, segments = front ++ name :: back → PlainPart name →
    walk [] front ≠ none → walk [] back = some [] → ∀ c ∈ name.getLast?, isSpace c = false

section
variable {dir base front back segments qs ps : List Text} {name path out : Text}

theorem walk_append : walk dir (front ++ back) = (walk dir front).bind fun d => walk d back :=
  List.foldlM_append

theorem walk_cons : walk dir (name :: back) = (enter dir name).bind fun d => walk d back :=
  List.foldlM_cons

theorem enter_plain (h : PlainPart name) : enter dir name = some (dir ++ [name]) := by
  rw [enter, if_neg (not_or.mpr ⟨h.1, h.2.1⟩), if_neg h.2.2]

/-- **The loop walks**, with the parts in reverse. -/
theorem normalizeSegments_eq_walk (segments parts : List Text) :
    normalizeSegments segments parts = walk parts.reverse segments := by
  induction segments generalizing parts with
  | nil => cases parts <;> rfl
  | cons segment rest ih =>
    rw [normalizeSegments_cons, walk_cons, enter]
    split
    · exact ih parts
    · split
      · cases parts with
        | nil => rfl
        | cons part parts =>
          rw [if_neg (by simp), List.reverse_cons, List.dropLast_concat]
          exact ih parts
      · rw [ih (segment :: parts), List.reverse_cons]
        rfl

theorem normalizeModulePath_iff_walk : normalizeModulePath path = .ok out ↔
    ∃ parts, parts ≠ [] ∧ walk [] (segmentsOf path) = some parts ∧ out = ['/'].intercalate parts := by
  rw [normalizeModulePath_ok_iff]
  simp only [normalizeSegments_eq_walk]
  rfl

/-- A walk that never leaves where it starts goes the same way below another directory. -/
theorem walk_below (h : walk dir back = some ps) : walk (base ++ dir) back = some (base ++ ps) := by
  induction back generalizing dir with
  | nil =>
    obtain rfl := Option.some.inj h
    rfl
  | cons name back ih =>
    rw [walk_cons] at h ⊢
    obtain ⟨next, hnext, hback⟩ := Option.bind_eq_some_iff.mp h
    have henter : enter (base ++ dir) name = some (base ++ next) := by
      unfold enter at hnext ⊢
      split
      · rename_i hskip
        rw [if_pos hskip] at hnext
        rw [Option.some.inj hnext]
      · rename_i hskip
        rw [if_neg hskip] at hnext
        split
        · rename_i hup
          rw [if_pos hup] at hnext
          split at hnext
          · cases hnext
          rename_i hdir
          rw [if_neg fun hnil => hdir (List.append_eq_nil_iff.mp hnil).2, ← Option.some.inj hnext,
            List.dropLast_append_of_ne_nil hdir]
        · rename_i hup
          rw [if_neg hup] at hnext
          rw [← Option.some.inj hnext, List.append_assoc]
    rw [henter, Option.bind_some, ih hback]

/-- A name between segments that lead to `qs` and segments that lead on to `ps`. -/
theorem walk_name (hname : PlainPart name) (hfront : walk [] front = some qs)
    (hback : walk [] back = some ps) : walk [] (front ++ name :: back) = some (qs ++ name :: ps) := by
  have hbelow : walk (qs ++ [name]) back = some (qs ++ [name] ++ ps) := by
    have h := @walk_below [] (qs ++ [name]) back ps hback
    rwa [List.append_nil] at h
  rw [walk_append, hfront, Option.bind_some, walk_cons, enter_plain hname, Option.bind_some, hbelow,
    List.append_assoc, List.singleton_append]

/-- **Every name of the result** stands in the path, between segments that lead to what is before it
    and segments that lead to what is behind it. -/
theorem walk_split (h : walk [] segments = some (qs ++ name :: ps)) : ∃ front back,
    segments = front ++ name :: back ∧ PlainPart name ∧ walk [] front = some qs ∧
      walk [] back = some ps := by
  induction segments using List.reverseRecOn generalizing ps with
  | nil => exact absurd (Option.some.inj h) (by simp)
  | append_singleton init segment ih =>
    rw [walk_append] at h
    obtain ⟨dir, hdir, hlast⟩ := Option.bind_eq_some_iff.mp h
    have hlast : enter dir segment = some (qs ++ name :: ps) := by
      rw [walk_cons] at hlast
      obtain ⟨_, henter, hend⟩ := Option.bind_eq_some_iff.mp hlast
      rwa [Option.some.inj hend] at henter
    -- what follows the name also has the last segment
    have hextend : ∀ {ps' : List Text}, dir = qs ++ name :: ps' → enter ps' segment = some ps →
        ∃ front back, init ++ [segment] = front ++ name :: back ∧ PlainPart name ∧
          walk [] front = some qs ∧ walk [] back = some ps := by
      intro ps' hsplit henter
      obtain ⟨front, back, rfl, hname, hfront, hback⟩ := ih (hsplit ▸ hdir)
      refine ⟨front, back ++ [segment], by simp, hname, hfront, ?_⟩
      rw [walk_append, hback, Option.bind_some, walk_cons, henter]
      rfl
    unfold enter at hlast
    split at hlast
    · rename_i hskip
      exact hextend (Option.some.inj hlast) (by rw [enter, if_pos hskip])
    · rename_i hskip
      split at hlast
      · rename_i hup
        split at hlast
        · cases hlast
        rename_i hne
        have hdrop := Option.some.inj hlast
        refine @hextend (ps ++ [dir.getLast hne]) ?_ ?_
        · calc
            dir = dir.dropLast ++ [dir.getLast hne] := (List.dropLast_append_getLast hne).symm
            _ = qs ++ name :: (ps ++ [dir.getLast hne]) := by rw [hdrop]; simp
        · rw [enter, if_neg hskip, if_pos hup, if_neg (by simp), List.dropLast_concat]
      · rename_i hup
        have hplain : PlainPart segment := ⟨fun h => hskip (.inl h), fun h => hskip (.inr h), hup⟩
        have hpush := Option.some.inj hlast
        cases ps using List.reverseRecOn with
        | nil =>
          obtain ⟨rfl, hseg⟩ := List.append_inj' hpush rfl
          obtain rfl := List.singleton_inj.mp hseg
          exact ⟨init, [], rfl, hplain, hdir, rfl⟩
        | append_singleton ps' last =>
          have hpush : dir ++ [segment] = (qs ++ name :: ps') ++ [last] := by rw [hpush]; simp
          obtain ⟨hdir', hseg⟩ := List.append_inj' hpush rfl
          obtain rfl := List.singleton_inj.mp hseg
          exact hextend hdir' (enter_plain hplain)

/-- What leaves the root leads nowhere. -/
theorem walk_leaves (h : LeavesRoot segments) : walk [] segments = none := by
  obtain ⟨front, back, rfl, hfront⟩ := h
  have hup : enter [] ".." = none := by decide
  rw [walk_append, hfront, Option.bind_some, walk_cons, hup]
  rfl

/-! ### Once and for all -/

/-- The characters of segments, with a slash for each. -/
def textSize (segments : List Text) : ℕ := (segments.map fun s => s.length + 1).sum

theorem textSize_intercalate (hne : segments ≠ []) :
    (['/'].intercalate segments).length + 1 = textSize segments := by
  induction segments with
  | nil => exact absurd rfl hne
  | cons first rest ih =>
    cases rest with
    | nil => simp [textSize]
    | cons next more =>
      have hrest := ih (List.cons_ne_nil next more)
      rw [List.intercalate_cons_cons, List.length_append, List.length_append, List.length_singleton]
      show _ = (first.length + 1) + textSize (next :: more)
      omega

theorem textSize_splitOn (text : Text) : textSize (text.splitOn '/') = text.length + 1 := by
  rw [← textSize_intercalate (List.splitOn_ne_nil '/' text), List.intercalate_splitOn]

theorem textSize_dropLast_le : textSize dir.dropLast ≤ textSize dir := by
  cases dir using List.reverseRecOn with
  | nil => exact Nat.le_refl _
  | append_singleton front last =>
    rw [List.dropLast_concat, textSize, textSize, List.map_append, List.sum_append]
    exact Nat.le_add_right ..

/-- A walk adds no characters. -/
theorem textSize_walk (h : walk dir segments = some ps) :
    textSize ps ≤ textSize dir + textSize segments := by
  induction segments generalizing dir with
  | nil =>
    obtain rfl := Option.some.inj h
    exact Nat.le_add_right ..
  | cons name rest ih =>
    rw [walk_cons] at h
    obtain ⟨next, hnext, hrest⟩ := Option.bind_eq_some_iff.mp h
    have hsize : textSize next ≤ textSize dir + (name.length + 1) := by
      unfold enter at hnext
      split at hnext
      · obtain rfl := Option.some.inj hnext
        exact Nat.le_add_right ..
      · split at hnext
        · split at hnext
          · cases hnext
          · obtain rfl := Option.some.inj hnext
            exact Nat.le_add_right_of_le textSize_dropLast_le
        · obtain rfl := Option.some.inj hnext
          rw [textSize, textSize, List.map_append, List.sum_append]
          exact Nat.le_refl _
    have hcons : textSize (name :: rest) = (name.length + 1) + textSize rest := rfl
    have hmore := ih hrest
    omega

/-- **A normalised path that normalises to itself** has no space to trim. -/
theorem again_iff (h : normalizeModulePath path = .ok out) :
    normalizeModulePath out = .ok out ↔ trim out = out := by
  constructor
  · intro hagain
    obtain ⟨parts, hne, hwalk, hout⟩ := normalizeModulePath_iff_walk.mp hagain
    have hsize := textSize_walk hwalk
    have hparts := textSize_intercalate hne
    rw [segmentsOf, textSize_splitOn, List.length_map] at hsize
    rw [← hout] at hparts
    obtain ⟨before, after, hsplit, -, -⟩ := trim_split out
    have hlength := congrArg List.length hsplit
    rw [List.length_append, List.length_append] at hlength
    have hnil : textSize [] = 0 := rfl
    have hbefore : before = [] := List.length_eq_zero_iff.mp (by omega)
    have hafter : after = [] := List.length_eq_zero_iff.mp (by omega)
    rw [hbefore, hafter, List.append_nil] at hsplit
    exact hsplit.symm
  · exact normalizeModulePath_again h

/-- The ends of a path are those of its first and its last part. -/
theorem trim_join_iff (hplain : ∀ part ∈ segments, PlainPart part ∧ '/' ∉ part) (hne : segments ≠ []) :
    trim (['/'].intercalate segments) = ['/'].intercalate segments ↔
      (∀ name ps, segments = name :: ps → ∀ c ∈ name.head?, isSpace c = false) ∧
        ∀ qs name, segments = qs ++ [name] → ∀ c ∈ name.getLast?, isSpace c = false := by
  have hsplit : (['/'].intercalate segments).splitOn '/' = segments :=
    List.splitOn_intercalate _ (fun part hpart => (hplain part hpart).2) hne
  have hhead : ∀ name ps, segments = name :: ps →
      (['/'].intercalate segments).head? = name.head? := by
    rintro name ps rfl
    have hname := (hplain name List.mem_cons_self).1.1
    obtain ⟨c, rest, rfl⟩ := List.exists_cons_of_ne_nil hname
    cases ps with
    | nil => rw [List.intercalate_singleton]
    | cons next more => rw [List.intercalate_cons_cons]; rfl
  have hlast : ∀ qs name, segments = qs ++ [name] →
      (['/'].intercalate segments).getLast? = name.getLast? := by
    intro qs name heq
    have hname := (hplain name (by rw [heq]; simp)).1.1
    exact getLast?_of_splitOn hname (hsplit.trans heq)
  constructor
  · intro htrim
    refine ⟨fun name ps heq c hc => ?_, fun qs name heq c hc => ?_⟩
    · exact head_of_trim (['/'].intercalate segments) c (by rw [htrim, hhead name ps heq]; exact hc)
    · exact last_of_trim htrim c (by rw [hlast qs name heq]; exact hc)
  · rintro ⟨hfirst, hfinal⟩
    refine trim_of_tight ?_ ?_
    · obtain ⟨name, ps, rfl⟩ := List.exists_cons_of_ne_nil hne
      rw [hhead name ps rfl]
      exact hfirst name ps rfl
    · obtain ⟨qs, name, rfl⟩ := (List.eq_nil_or_concat' segments).resolve_left hne
      rw [hlast qs name rfl]
      exact hfinal qs name rfl

/-- What is accepted, with the parts that it is joined from. -/
theorem normalize_parts (h : normalizeModulePath path = .ok out) : ∃ parts, parts ≠ [] ∧
    walk [] (segmentsOf path) = some parts ∧ out = ['/'].intercalate parts ∧
    out.splitOn '/' = parts ∧ ∀ part ∈ parts, PlainPart part ∧ '/' ∉ part := by
  obtain ⟨parts, hne, hwalk, rfl⟩ := normalizeModulePath_iff_walk.mp h
  have hparts : ∀ part ∈ parts, PlainPart part ∧ '/' ∉ part := by
    intro part hpart
    obtain ⟨qs, ps, rfl⟩ := List.append_of_mem hpart
    obtain ⟨front, back, hsegments, hname, -, -⟩ := walk_split hwalk
    have hmem : part ∈ segmentsOf path := by
      rw [hsegments]
      exact List.mem_append_right _ List.mem_cons_self
    exact ⟨hname, not_mem_of_mem_splitOn hmem⟩
  exact ⟨parts, hne, hwalk, rfl, List.splitOn_intercalate _ (fun p hp => (hparts p hp).2) hne, hparts⟩

/-- **Exactly the paths without space at their edges** are normalised once and for all. -/
theorem normalises_iff : Normalises path ↔ EdgesTight (segmentsOf path) := by
  constructor
  · intro h
    -- the path of a decomposition is accepted, and its result has no space to trim
    have htrim : ∀ {qs name ps}, walk [] (segmentsOf path) = some (qs ++ name :: ps) →
        (∀ n rest, qs ++ name :: ps = n :: rest → ∀ c ∈ n.head?, isSpace c = false) ∧
          ∀ rest n, qs ++ name :: ps = rest ++ [n] → ∀ c ∈ n.getLast?, isSpace c = false := by
      intro qs name ps hwalk
      have hok := normalizeModulePath_iff_walk.mpr ⟨_, by simp, hwalk, rfl⟩
      obtain ⟨parts, hne, hwalk', -, -, hplain⟩ := normalize_parts hok
      obtain rfl := Option.some.inj (hwalk.symm.trans hwalk')
      exact (trim_join_iff hplain hne).mp ((again_iff hok).mp (h.again _ hok))
    refine ⟨fun front name back hsegs hname hfront hback => ?_,
      fun front name back hsegs hname hfront hback => ?_⟩
    · obtain ⟨ps, hps⟩ := Option.ne_none_iff_exists'.mp hback
      exact (htrim (hsegs ▸ walk_name hname hfront hps)).1 name ps rfl
    · obtain ⟨qs, hqs⟩ := Option.ne_none_iff_exists'.mp hfront
      exact (htrim (hsegs ▸ walk_name hname hqs hback)).2 qs name rfl
  · intro h
    refine ⟨fun out hout => ?_, fun out hout => ?_, fun hleaves => ?_⟩
    · obtain ⟨parts, hne, hwalk, hjoin, hsplit, hplain⟩ := normalize_parts hout
      rw [hsplit]
      obtain ⟨part, rest, rfl⟩ := List.exists_cons_of_ne_nil hne
      obtain ⟨c, tail, rfl⟩ := List.exists_cons_of_ne_nil (hplain part List.mem_cons_self).1.1
      have hcons : out = c :: (tail ++ if rest = [] then [] else '/' :: ['/'].intercalate rest) := by
        rw [hjoin]
        cases rest with
        | nil => simp
        | cons next more => rw [List.intercalate_cons_cons]; simp
      refine ⟨by rw [hcons]; exact List.cons_ne_nil _ _, ?_, ?_, hwalk⟩
      · rw [hcons]
        rintro hslash
        exact (hplain _ List.mem_cons_self).2 (Option.some.inj hslash ▸ List.mem_cons_self)
      · intro part hpart
        obtain ⟨hnil, hdot, hdots⟩ := (hplain part hpart).1
        simp only [List.mem_cons, List.not_mem_nil, or_false, not_or]
        exact ⟨hnil, hdot, hdots⟩
    · obtain ⟨parts, hne, hwalk, rfl, -, hplain⟩ := normalize_parts hout
      refine (again_iff hout).mpr ((trim_join_iff hplain hne).mpr ⟨?_, ?_⟩)
      · rintro name ps rfl
        obtain ⟨front, back, hsegs, hname, hfront, hback⟩ := @walk_split _ [] ps name hwalk
        exact h.first front name back hsegs hname hfront (by rw [hback]; simp)
      · rintro qs name rfl
        obtain ⟨front, back, hsegs, hname, hfront, hback⟩ := @walk_split _ qs [] name hwalk
        exact h.last front name back hsegs hname (by rw [hfront]; simp) hback
    · cases hout : normalizeModulePath path with
      | error e => exact ⟨e, rfl⟩
      | ok out =>
        obtain ⟨parts, -, hwalk, -⟩ := normalize_parts hout
        rw [walk_leaves hleaves] at hwalk
        cases hwalk

end

/-- A space behind the dot that is dropped: what is left is another path once it is read again. -/
theorem spaced_again : normalizeModulePath "./ lib.js" = .ok " lib.js" ∧
    normalizeModulePath " lib.js" = .ok "lib.js" := by
  decide +kernel

end KodyCelld.Execute
