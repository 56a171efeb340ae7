import KodyCelld.Lib.SimpleUrls
import KodyCelld.Lib.Texts

namespace KodyCelld.Lib

/-!
# Pathnames of web URLs

How the path state of the URL parser reads the text after an origin,
  and which texts leave the path that
they are appended to.

* `resolveDots`, `urlPathname` — the segments of a path, without those that mean a directory;
* `climb` — how far a path leads out of what it is appended to;
* `resolveDots_climb` — the path that is reached has lost so many segments;
* `UrlParser.OriginPaths` — a text made of an origin and a path is read as such, also where a label is
  put before the host;
* `domainUrls` — a parser for which that holds.
-/

/-! ### Segments -/

def isSingleDot (seg : Text) : Bool := decide (lower seg ∈ ([".", "%2e"] : List Text))

def isDoubleDot (seg : Text) : Bool :=
  decide (lower seg ∈ (["..", ".%2e", "%2e.", "%2e%2e"] : List Text))

/-- The backslash separates segments too. -/
def slashed (text : Text) : Text := text.map fun c => if c = '\\' then '/' else c

/-- The segments of a path, of which there is at least one. -/
def pathSegments (path : Text) : List Text :=
  match (slashed path).splitOn '/' with
  | _ :: next :: more => next :: more
  | _ => [[]]

/-- The path state: what it has (`done`) and the segments that are still to come. -/
def resolveDots (done : List Text) : List Text → List Text
  | [] => done
  | seg :: rest =>
    if isDoubleDot seg then
      -- a path that ends in such a segment is that of a directory
      resolveDots (if rest = [] then done.dropLast ++ [[]] else done.dropLast) rest
    else if isSingleDot seg then
      resolveDots (if rest = [] then done ++ [[]] else done) rest
    else resolveDots (done ++ [seg]) rest

/-- The segments of a path as the parser encodes them. -/
def encodedSegments (path : Text) : List Text :=
  pathSegments (percentEncode keptInPath (squeezeEnd path))

/-- `url.pathname` where `path` follows the origin. -/
def urlPathname (path : Text) : Text := pathText (resolveDots [] (encodedSegments path))

/-- A path: empty or with a slash in front, before the query and the fragment. -/
structure IsPath (path : Text) : Prop where
  starts : path = [] ∨ path.head? = some '/'
  alone : '?' ∉ path ∧ '#' ∉ path

/-- How many segments above its start a path of `depth` segments gets to. -/
def climb (depth : ℕ) : List Text → ℕ
  | [] => 0
  | seg :: rest =>
    if isDoubleDot seg then (if depth = 0 then 1 else 0) + climb (depth - 1) rest
    else if isSingleDot seg then climb depth rest
    else climb (depth + 1) rest

/-- Whether a path leads out of the directory that it is appended to. -/
def Climbs (path : Text) : Prop := climb 0 (encodedSegments path) ≠ 0

instance (path : Text) : Decidable (Climbs path) := inferInstanceAs (Decidable (_ ≠ _))

section
variable {done mount segs : List Text} {seg front back path : Text}

/-- A dot segment is of one of the two kinds. -/
theorem isDotSegment_false (h : isDotSegment seg = false) :
    isDoubleDot seg = false ∧ isSingleDot seg = false := by
  unfold isDotSegment at h
  unfold isDoubleDot isSingleDot
  simp only [decide_eq_false_iff_not, List.mem_cons, List.not_mem_nil, or_false, not_or] at h ⊢
  obtain ⟨h1, h2, h3, h4, h5, h6⟩ := h
  exact ⟨⟨h2, h4, h5, h6⟩, h1, h3⟩

/-- A dot segment starts with a dot or with an escape. -/
theorem isDotSegment_head (h : isDotSegment seg = true) :
    seg.head? = some '.' ∨ seg.head? = some '%' := by
  unfold isDotSegment at h
  rw [decide_eq_true_eq] at h
  cases seg with
  | nil => exact absurd h (by decide)
  | cons c rest =>
    have hall : ∀ t ∈ ([".", "..", "%2e", ".%2e", "%2e.", "%2e%2e"] : List Text),
        t.head? ∈ ([some '.', some '%'] : List (Option Char)) := by decide
    have hhead : Char.toLower c = '.' ∨ Char.toLower c = '%' := by simpa [lower] using hall _ h
    rcases hhead with hdot | hescape
    · rw [eq_of_toLower (by decide) hdot]
      exact .inl rfl
    · rw [eq_of_toLower (by decide) hescape]
      exact .inr rfl

/-- Segments of neither kind are taken as they are. -/
theorem resolveDots_plain (hplain : ∀ seg ∈ mount, isDotSegment seg = false) :
    resolveDots done (mount ++ segs) = resolveDots (done ++ mount) segs := by
  induction mount generalizing done with
  | nil => rw [List.nil_append, List.append_nil]
  | cons seg mount ih =>
    obtain ⟨hseg, hmount⟩ := List.forall_mem_cons.mp hplain
    obtain ⟨hdouble, hsingle⟩ := isDotSegment_false hseg
    rw [List.cons_append, resolveDots, hdouble, hsingle, if_neg (by simp), if_neg (by simp),
      ih hmount, List.append_assoc, List.singleton_append]

/-- The empty segment that ends the path of a directory. -/
def trail (done rest : List Text) : List Text := if rest = [] then done ++ [[]] else done

theorem trail_append : trail (mount ++ done) segs = mount ++ trail done segs := by
  unfold trail
  split
  · exact List.append_assoc ..
  · rfl

theorem climb_trail : climb (trail done segs).length segs = climb done.length segs := by
  unfold trail
  split
  · rename_i hnil
    rw [hnil]
    rfl
  · rfl

/-- **Where a path leads** from another one: that has lost the segments above which the path climbs. -/
theorem resolveDots_climb : resolveDots (mount ++ done) segs =
    mount.take (mount.length - climb done.length segs) ++ resolveDots done segs := by
  induction segs generalizing mount done with
  | nil =>
    show mount ++ done = mount.take mount.length ++ done
    rw [List.take_length]
  | cons seg rest ih =>
    by_cases hdouble : isDoubleDot seg = true
    · rw [resolveDots, resolveDots, climb, if_pos hdouble, if_pos hdouble, if_pos hdouble]
      show resolveDots (trail (mount ++ done).dropLast rest) rest =
        _ ++ resolveDots (trail done.dropLast rest) rest
      by_cases hdone : done = []
      · -- the segment takes one off the path before
        subst hdone
        have hlast : (mount ++ ([] : List Text)).dropLast = mount.dropLast ++ [] := by
          rw [List.append_nil, List.append_nil]
        have hclimb : climb (trail [] rest).length rest = climb 0 rest := climb_trail
        have hlength : mount.dropLast.length - climb 0 rest =
            mount.length - (1 + climb 0 rest) := by
          rw [List.length_dropLast]
          omega
        have htake : mount.dropLast.take (mount.length - (1 + climb 0 rest)) =
            mount.take (mount.length - (1 + climb 0 rest)) := by
          rw [List.dropLast_eq_take, List.take_take]
          congr 1
          omega
        rw [hlast, trail_append, ih, hclimb, hlength, htake]
        rfl
      · have hlast : (mount ++ done).dropLast = mount ++ done.dropLast :=
          List.dropLast_append_of_ne_nil hdone
        have hpos : done.length ≠ 0 := fun h => hdone (List.length_eq_zero_iff.mp h)
        rw [hlast, trail_append, ih, climb_trail, List.length_dropLast, if_neg hpos, Nat.zero_add]
    · rw [resolveDots, resolveDots, climb, if_neg hdouble, if_neg hdouble, if_neg hdouble]
      by_cases hsingle : isSingleDot seg = true
      · rw [if_pos hsingle, if_pos hsingle, if_pos hsingle]
        show resolveDots (trail (mount ++ done) rest) rest = _ ++ resolveDots (trail done rest) rest
        rw [trail_append, ih, climb_trail]
      · rw [if_neg hsingle, if_neg hsingle, if_neg hsingle, List.append_assoc, ih,
        List.length_append]
        rfl

/-! ### Paths that follow others -/

theorem slashed_append : slashed (front ++ back) = slashed front ++ slashed back :=
  List.map_append

theorem slashed_eq_self (h : '\\' ∉ front) : slashed front = front := by
  refine (List.map_congr_left fun c hc => ?_).trans (List.map_id _)
  have hkeep : c ≠ '\\' := fun hback => h (hback ▸ hc)
  exact if_neg hkeep

/-- A path that starts with a slash is split behind it. -/
theorem pathSegments_slash : pathSegments ('/' :: back) = (slashed back).splitOn '/' := by
  have hslash : slashed ('/' :: back) = [] ++ '/' :: slashed back := rfl
  unfold pathSegments
  rw [hslash, List.splitOn_append_cons_self_of_not_mem List.not_mem_nil]
  obtain ⟨next, more, hcons⟩ := List.exists_cons_of_ne_nil (List.splitOn_ne_nil '/' (slashed back))
  rw [hcons]

theorem pathSegments_cons (hseg : PlainSegment seg) (hback : back.head? = some '/') :
    pathSegments ('/' :: (seg ++ back)) = seg :: pathSegments back := by
  obtain ⟨tail, rfl⟩ := List.head?_eq_some_iff.mp hback
  have hself : slashed seg = seg := slashed_eq_self fun hmem => (hseg.inside _ hmem).2 rfl
  have hslash : slashed ('/' :: tail) = '/' :: slashed tail := rfl
  rw [pathSegments_slash, pathSegments_slash, slashed_append, hself, hslash,
    List.splitOn_append_cons_self_of_not_mem hseg.slash.2]

theorem pathSegments_mount (hmount : ∀ seg ∈ mount, PlainSegment seg)
    (hback : back.head? = some '/') :
    pathSegments (pathText mount ++ back) = mount ++ pathSegments back := by
  induction mount with
  | nil => rfl
  | cons seg mount ih =>
    obtain ⟨hseg, hmount⟩ := List.forall_mem_cons.mp hmount
    have hnext : (pathText mount ++ back).head? = some '/' := by
      cases mount with
      | nil => exact hback
      | cons next more => rfl
    have hcons : pathText (seg :: mount) ++ back = '/' :: (seg ++ (pathText mount ++ back)) := by
      show ('/' :: seg ++ pathText mount) ++ back = _
      rw [List.append_assoc, List.cons_append]
    rw [hcons, pathSegments_cons hseg hnext, ih hmount, List.cons_append]

theorem squeezeEnd_slash : squeezeEnd ('/' :: back) = '/' :: squeezeEnd back :=
  @squeezeEnd_append ['/'] (by decide) back

/-- What the parser makes of a path before it is split. -/
theorem encode_mount (hmount : ∀ seg ∈ mount, PlainSegment seg) :
    percentEncode keptInPath (squeezeEnd (pathText mount ++ path)) =
      pathText mount ++ percentEncode keptInPath (squeezeEnd path) := by
  have hkept := pathText_kept hmount
  have hprintable : ∀ c ∈ pathText mount, isPrintable c = true := fun c hc =>
    isPrintable_of_path (hkept c hc)
  rw [squeezeEnd_append hprintable, percentEncode_append, percentEncode_of_kept hkept]

/-- **The segments of a path that follows plain ones** come after these. -/
theorem encodedSegments_mount (hmount : ∀ seg ∈ mount, PlainSegment seg)
    (hpath : path.head? = some '/') :
    encodedSegments (pathText mount ++ path) = mount ++ encodedSegments path := by
  obtain ⟨tail, rfl⟩ := List.head?_eq_some_iff.mp hpath
  have hslash : (percentEncode keptInPath (squeezeEnd ('/' :: tail))).head? = some '/' := by
    rw [squeezeEnd_slash]
    exact percentEncode_head (by decide) rfl
  unfold encodedSegments
  rw [encode_mount hmount, pathSegments_mount hmount hslash]

theorem encodedSegments_plain (hmount : ∀ seg ∈ mount, PlainSegment seg) (hne : mount ≠ []) :
    encodedSegments (pathText mount) = mount := by
  have hencode := @encode_mount mount [] hmount
  have hnil : percentEncode keptInPath (squeezeEnd []) = [] := rfl
  have hself : slashed (pathText mount) = pathText mount := by
    refine slashed_eq_self fun hmem => ?_
    obtain ⟨seg, hseg, hmem⟩ := List.mem_flatMap.mp hmem
    rcases List.mem_cons.mp hmem with heq | hmem
    · exact absurd heq (by decide)
    · exact ((hmount seg hseg).inside _ hmem).2 rfl
  obtain ⟨seg, more, rfl⟩ := List.exists_cons_of_ne_nil hne
  rw [hnil, List.append_nil] at hencode
  unfold encodedSegments pathSegments
  rw [hencode, hself, splitOn_pathText fun seg hseg => (hmount seg hseg).slash.2]

/-! ### Pathnames -/

/-- Plain segments are read as they are written. -/
theorem urlPathname_plain (hmount : ∀ seg ∈ mount, PlainSegment seg) (hne : mount ≠ []) :
    urlPathname (pathText mount) = pathText mount := by
  have hresolve := @resolveDots_plain [] mount [] fun seg hseg => (hmount seg hseg).still
  rw [List.append_nil, List.nil_append] at hresolve
  unfold urlPathname
  rw [encodedSegments_plain hmount hne, hresolve, resolveDots]

/-- **The pathname of a path behind plain segments**: what is left of these, then its own. -/
theorem urlPathname_mount (hmount : ∀ seg ∈ mount, PlainSegment seg)
    (hpath : path.head? = some '/') : urlPathname (pathText mount ++ path) =
      pathText (mount.take (mount.length - climb 0 (encodedSegments path))) ++
        urlPathname path := by
  have hplain := @resolveDots_plain [] mount (encodedSegments path) fun seg hseg =>
    (hmount seg hseg).still
  have hclimb := @resolveDots_climb [] mount (encodedSegments path)
  rw [List.append_nil] at hclimb
  unfold urlPathname
  rw [encodedSegments_mount hmount hpath, hplain, List.nil_append, hclimb, pathText_append]
  rfl

theorem resolveDots_ne_nil (hsegs : segs ≠ []) : resolveDots done segs ≠ [] := by
  induction segs generalizing done with
  | nil => exact absurd rfl hsegs
  | cons seg rest ih =>
    have hend : ∀ {front : List Text} {last : Text}, front ++ [last] ≠ [] := fun h =>
      List.cons_ne_nil _ _ (List.append_eq_nil_iff.mp h).2
    by_cases hrest : rest = []
    · subst hrest
      rw [resolveDots, if_pos rfl, if_pos rfl]
      split
      · exact hend
      · split
        · exact hend
        · exact hend
    · rw [resolveDots, if_neg hrest, if_neg hrest]
      split
      · exact ih hrest
      · split
        · exact ih hrest
        · exact ih hrest

theorem pathSegments_ne_nil : pathSegments path ≠ [] := by
  unfold pathSegments
  split
  · exact List.cons_ne_nil _ _
  · exact List.cons_ne_nil _ _

theorem head_pathText (hsegs : segs ≠ []) : (pathText segs).head? = some '/' := by
  obtain ⟨seg, more, rfl⟩ := List.exists_cons_of_ne_nil hsegs
  rfl

/-- A pathname starts with a slash. -/
theorem head_urlPathname : (urlPathname path).head? = some '/' :=
  head_pathText (resolveDots_ne_nil pathSegments_ne_nil)

/-- **A path stays under plain segments** exactly if it does not climb: what follows these is the
    path's own pathname, an empty one standing for the slash. -/
theorem stays_iff (hmount : ∀ seg ∈ mount, PlainSegment seg) (hne : mount ≠ []) (hpath : IsPath path) :
    (∃ tail, urlPathname (pathText mount ++ path) = pathText mount ++ tail ∧
      (if tail = [] then ['/'] else tail) = urlPathname path) ↔ ¬ Climbs path := by
  rcases hpath.starts with rfl | hslash
  · refine iff_of_true ⟨[], ?_, by decide⟩ (by decide)
    rw [List.append_nil, urlPathname_plain hmount hne]
  · rw [urlPathname_mount hmount hslash, Climbs, not_not]
    constructor
    · rintro ⟨tail, hpathname, htail⟩
      by_contra hclimb
      -- the segments that are lost are longer than a slash
      obtain ⟨seg, more, hlost⟩ : ∃ seg more, mount.drop
          (mount.length - climb 0 (encodedSegments path)) = seg :: more := by
        refine List.exists_cons_of_ne_nil fun hnil => ?_
        have hpos := List.length_pos_of_ne_nil hne
        have hle := List.drop_eq_nil_iff.mp hnil
        omega
      have hseg := hmount seg (List.mem_of_mem_drop (hlost ▸ List.mem_cons_self))
      have hlong := List.length_pos_of_ne_nil hseg.nonempty
      have hsplit := pathText_append (mount.take (mount.length - climb 0 (encodedSegments path)))
        (seg :: more)
      rw [← hlost, List.take_append_drop] at hsplit
      rw [hsplit, List.append_assoc] at hpathname
      have hlength := congrArg List.length (List.append_cancel_left hpathname)
      have hcons : (pathText (seg :: more)).length = seg.length + 1 + (pathText more).length := by
        show ('/' :: seg ++ pathText more).length = _
        rw [List.length_append, List.length_cons]
      rw [← htail, hlost, List.length_append, hcons] at hlength
      split at hlength
      · rw [List.length_singleton] at hlength
        omega
      · omega
    · intro hclimb
      refine ⟨urlPathname path, by rw [hclimb, Nat.sub_zero, List.take_length], if_neg fun hnil => ?_⟩
      have hhead := @head_urlPathname path
      rw [hnil] at hhead
      cases hhead

/-- What holds of the characters of all segments holds of those that are left. -/
theorem mem_resolveDots {q : Char → Prop} (hdone : ∀ seg ∈ done, ∀ c ∈ seg, q c)
    (hsegs : ∀ seg ∈ segs, ∀ c ∈ seg, q c) : ∀ seg ∈ resolveDots done segs, ∀ c ∈ seg, q c := by
  induction segs generalizing done with
  | nil => exact hdone
  | cons seg rest ih =>
    obtain ⟨hseg, hrest⟩ := List.forall_mem_cons.mp hsegs
    have hsnoc : ∀ {front : List Text} {last : Text}, (∀ seg ∈ front, ∀ c ∈ seg, q c) →
        (∀ c ∈ last, q c) → ∀ seg ∈ front ++ [last], ∀ c ∈ seg, q c := by
      intro front last hfront hlast seg hmem
      rcases List.mem_append.mp hmem with hmem | hmem
      · exact hfront seg hmem
      · rw [List.mem_singleton.mp hmem]
        exact hlast
    have htrail : ∀ {front : List Text}, (∀ seg ∈ front, ∀ c ∈ seg, q c) →
        ∀ seg ∈ trail front rest, ∀ c ∈ seg, q c := by
      intro front hfront
      unfold trail
      split
      · exact hsnoc hfront nofun
      · exact hfront
    rw [resolveDots]
    split
    · exact ih (htrail fun seg hmem => hdone seg (List.dropLast_subset _ hmem)) hrest
    · split
      · exact ih (htrail hdone) hrest
      · exact ih (hsnoc hdone hseg) hrest

/-- The characters of a pathname are those that a path keeps. -/
theorem urlPathname_kept : ∀ c ∈ urlPathname path, keptInPath c = true := by
  have hslashed : ∀ c ∈ slashed (percentEncode keptInPath (squeezeEnd path)),
      keptInPath c = true := by
    intro c hc
    obtain ⟨d, hd, rfl⟩ := List.mem_map.mp hc
    split
    · decide
    · exact percentEncode_kept keepsEscapes_path d hd
  have hsegs : ∀ seg ∈ encodedSegments path, ∀ c ∈ seg, keptInPath c = true := by
    intro seg hseg c hc
    unfold encodedSegments pathSegments at hseg
    split at hseg
    · rename_i first next more hsplit
      have hmem : seg ∈ (slashed (percentEncode keptInPath (squeezeEnd path))).splitOn '/' := by
        rw [hsplit]
        exact List.mem_cons_of_mem _ hseg
      exact hslashed c (mem_of_mem_splitOn hmem hc)
    · rw [List.mem_singleton.mp hseg] at hc
      exact absurd hc List.not_mem_nil
  intro c hc
  obtain ⟨seg, hseg, hc⟩ := List.mem_flatMap.mp hc
  rcases List.mem_cons.mp hc with rfl | hc
  · decide
  · exact mem_resolveDots nofun hsegs seg hseg c hc

end

/-! ### Origins -/

def lastLabel (host : Text) : Text := (host.splitOn '.').getLastD []

/-- The host of a parsed URL is an address: in brackets, or with a number for its last label. -/
def IsAddress (host : Text) : Prop :=
  host.head? = some '[' ∨ lastLabel host ≠ [] ∧ (lastLabel host).all isDigit = true

instance (host : Text) : Decidable (IsAddress host) := inferInstanceAs (Decidable (_ ∨ _ ∧ _))

/-- A label that the host parser takes as it is written, also before other labels. -/
structure HostLabel (label : Text) : Prop where
  chars : ∀ c ∈ label, isHostChar c = true ∧ c ≠ '.'
  first : ∃ c, label.head? = some c ∧ 'a' ≤ c ∧ c ≤ 'z'
  last : label.getLast? ≠ some '-'
  plain : (label.drop 2).take 2 ≠ "--"

/-- What the parser makes of a host, a port and a path. -/
structure Url.LeadsTo (w : Url) (hostname port path : Text) : Prop where
  hostname : w.hostname = hostname
  port : w.port = port
  pathname : w.pathname = urlPathname path

/-- **A text made of an origin and a path** is read as such.  A label may be put before the host of the
    origin where that is a name, and never where it is an address. -/
structure UrlParser.OriginPaths (u : UrlParser) : Prop where
  lower : ∀ text v, u.parse text = some v → v.IsHttp → lower v.hostname = v.hostname
  path : ∀ text v, u.parse text = some v → v.IsHttp → ∀ path, IsPath path →
    ∃ w, u.parse (v.protocol ++ "//" ++ v.host ++ path) = some w ∧ w.LeadsTo v.hostname v.port path
  label : ∀ text v, u.parse text = some v → v.IsHttp → ¬ IsAddress v.hostname →
    ∀ label, HostLabel label → ∀ path, IsPath path →
      ∃ w, u.parse (v.protocol ++ "//" ++ label ++ '.' :: v.host ++ path) = some w ∧
        w.LeadsTo (label ++ '.' :: v.hostname) v.port path
  address : ∀ text v, u.parse text = some v → v.IsHttp → IsAddress v.hostname →
    ∀ label, HostLabel label → ∀ path, IsPath path →
      u.parse (v.protocol ++ "//" ++ label ++ '.' :: v.host ++ path) = none

/-! ### A parser that resolves paths -/

/-- A host whose last label is a number has to be all numbers. -/
def hostAllowed (host : Text) : Bool :=
  !(decide (lastLabel host ≠ []) && (lastLabel host).all isDigit) ||
    host.all fun c => isDigit c || c == '.'

def domainUrls : UrlParser where
  parse text := (simpleParse text).bind fun v =>
    if hostAllowed v.hostname then
      some { v with pathname := pathText (resolveDots [] (pathSegments v.pathname)) }
    else none
  resolve _ _ := none

theorem lastLabel_append {label host : Text} : lastLabel
    (label ++ '.' :: host) = lastLabel host := by
  unfold lastLabel
  rw [List.splitOn_append_cons_self, List.getLastD_eq_getLast?, List.getLastD_eq_getLast?,
    List.getLast?_append, List.getLast?_eq_some_getLast (List.splitOn_ne_nil '.' host),
    Option.some_or]

section
variable {label text host path : Text} {v : Url}

theorem domainUrls_cases (h : domainUrls.parse text = some v) :
    ∃ p : Parts, p.Normal ∧ v.protocol = "https:" ∧ v.hostname = p.host ∧ v.port = [] ∧
      hostAllowed p.host = true := by
  obtain ⟨w, hw, h⟩ := Option.bind_eq_some_iff.mp h
  obtain ⟨p, hp, rfl⟩ := simpleParse_cases hw
  split at h
  · rename_i hallowed
    cases h
    exact ⟨p, hp, rfl, rfl, rfl, hallowed⟩
  · cases h

theorem squeezeEnd_subset : squeezeEnd path ⊆ path := by
  intro c hc
  exact (List.rdropWhile_prefix _ _).subset (List.mem_filter.mp hc).1

/-- The pathname of the components that are read behind a host. -/
theorem readParts_pathname (hpath : IsPath path) :
    pathText (resolveDots [] (pathSegments (readParts host (squeezeEnd path)).pathname)) =
      urlPathname path := by
  have hkeep : ∀ mark : Char, mark ∉ path →
      (squeezeEnd path).takeWhile (fun c => decide (c ≠ mark)) = squeezeEnd path := by
    intro mark hmark
    refine List.takeWhile_eq_self_iff.mpr fun c hc => decide_eq_true ?_
    rintro rfl
    exact hmark (squeezeEnd_subset hc)
  unfold readParts urlPathname encodedSegments
  simp only [hkeep '#' hpath.alone.2, hkeep '?' hpath.alone.1]
  split
  · rename_i hnil
    rw [hnil]
    rfl
  · rfl

/-- A path is read behind a host. -/
theorem domainUrls_parse (hne : host ≠ []) (hhost : ∀ c ∈ host, isHostChar c = true)
    (hpath : IsPath path) : domainUrls.parse ("https:" ++ "//" ++ host ++ path) =
      if hostAllowed host then
        some { (readParts host (squeezeEnd path)).url with pathname := urlPathname path }
      else none := by
  have hprintable : ∀ c ∈ https ++ host, isPrintable c = true := by
    intro c hc
    rcases List.mem_append.mp hc with hhttps | hc
    · exact https_printable c hhttps
    · exact isPrintable_of_host (hhost c hc)
  have hsqueeze : squeeze ("https:" ++ "//" ++ host ++ path) = https ++
    (host ++ squeezeEnd path) := by
    have hfront := squeeze_append (List.append_ne_nil_of_left_ne_nil (by decide) host) hprintable
      path
    rwa [List.append_assoc https] at hfront
  have hends : EndsHost (squeezeEnd path) := by
    rcases hpath.starts with rfl | hslash
    · exact .inl rfl
    · obtain ⟨tail, rfl⟩ := List.head?_eq_some_iff.mp hslash
      rw [squeezeEnd_slash]
      exact .inr (.inl rfl)
  show (simpleParse ("https:" ++ "//" ++ host ++ path)).bind _ = _
  rw [simpleParse_eq hne hhost hends hsqueeze, Option.bind_some,
    ← @readParts_pathname host path hpath]
  rfl

theorem lower_host (hhost : ∀ c ∈ host, isHostChar c = true) : lower host = host := by
  have hcapital : ∀ n < 91, 65 ≤ n → isHostChar (Char.ofNat n) = false := by decide
  refine (List.map_congr_left fun c hc => ?_).trans (List.map_id host)
  rcases toLower_cases c with hsame | ⟨n, hlow, hhigh, rfl⟩
  · exact hsame
  · exact absurd ((hcapital n hhigh hlow).symm.trans (hhost _ hc)) (by decide)

theorem isAddress_host {p : Parts} (h : p.Normal) :
    IsAddress p.host ↔ lastLabel p.host ≠ [] ∧ (lastLabel p.host).all isDigit = true := by
  refine or_iff_right fun hhead => ?_
  obtain ⟨tail, htail⟩ := List.head?_eq_some_iff.mp hhead
  have hbracket := h.hostChars '[' (htail ▸ List.mem_cons_self)
  exact absurd hbracket (by decide)

/-- A host with a label before it. -/
theorem hostChars_label {p : Parts} (h : p.Normal) (hlabel : HostLabel label) :
    ∀ c ∈ label ++ '.' :: p.host, isHostChar c = true := by
  intro c hc
  rcases List.mem_append.mp hc with hc | hc
  · exact (hlabel.chars c hc).1
  · rcases List.mem_cons.mp hc with rfl | hc
    · decide
    · exact h.hostChars c hc

/-- It is allowed where that is a name. -/
theorem hostAllowed_label {p : Parts} (h : p.Normal) (hlabel : HostLabel label) :
    hostAllowed (label ++ '.' :: p.host) = true ↔ ¬ IsAddress p.host := by
  have hletter : ((label ++ '.' :: p.host).all fun c => isDigit c || c == '.') = false := by
    obtain ⟨c, hhead, hlow, hhigh⟩ := hlabel.first
    obtain ⟨tail, rfl⟩ := List.head?_eq_some_iff.mp hhead
    have hletters : isDigit c = false ∧ (c == '.') = false := by
      constructor
      · rw [isDigit, Bool.and_eq_false_iff, decide_eq_false_iff_not, decide_eq_false_iff_not]
        exact .inr fun hnine => absurd (Char.le_trans hlow hnine) (by decide)
      · exact beq_false_of_ne fun hdot => absurd (hdot ▸ hlow) (by decide)
    rw [List.cons_append, List.all_cons, hletters.1, hletters.2]
    rfl
  unfold hostAllowed
  rw [hletter, lastLabel_append, isAddress_host h, Bool.or_false, Bool.not_eq_true',
    Bool.and_eq_false_iff,
    decide_eq_false_iff_not, not_and_or, Bool.not_eq_true]

end

/-- **The parser reads paths behind its origins.** -/
theorem domainUrls_originPaths : domainUrls.OriginPaths where
  lower text v h _ := by
    obtain ⟨p, hp, -, hhost, -, -⟩ := domainUrls_cases h
    rw [hhost, lower_host hp.hostChars]
  path text v h _ path hpath := by
    obtain ⟨p, hp, hprotocol, hhost, hport, hallowed⟩ := domainUrls_cases h
    have hhostText : v.host = p.host := by rw [Url.host, if_pos hport, hhost]
    rw [hprotocol, hhostText, domainUrls_parse hp.host hp.hostChars hpath, if_pos hallowed]
    exact ⟨_, rfl, hhost.symm, hport.symm, rfl⟩
  label text v h _ hname label hlabel path hpath := by
    obtain ⟨p, hp, hprotocol, hhost, hport, -⟩ := domainUrls_cases h
    have hhostText : v.host = p.host := by rw [Url.host, if_pos hport, hhost]
    have hne : label ++ '.' :: p.host ≠ [] := List.append_ne_nil_of_right_ne_nil _
      (List.cons_ne_nil _ _)
    rw [hhost] at hname
    rw [hprotocol, hhostText, List.append_assoc _ label,
      domainUrls_parse hne (hostChars_label hp hlabel) hpath,
        if_pos ((hostAllowed_label hp hlabel).mpr hname)]
    exact ⟨_, rfl, congrArg (label ++ '.' :: ·) hhost.symm, hport.symm, rfl⟩
  address text v h _ haddress label hlabel path hpath := by
    obtain ⟨p, hp, hprotocol, hhost, hport, -⟩ := domainUrls_cases h
    have hhostText : v.host = p.host := by rw [Url.host, if_pos hport, hhost]
    have hne : label ++ '.' :: p.host ≠ [] := List.append_ne_nil_of_right_ne_nil _
      (List.cons_ne_nil _ _)
    rw [hhost] at haddress
    rw [hprotocol, hhostText, List.append_assoc _ label,
      domainUrls_parse hne (hostChars_label hp hlabel) hpath,
      if_neg fun hallowed => (hostAllowed_label hp hlabel).mp hallowed haddress]

end KodyCelld.Lib
