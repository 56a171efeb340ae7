import KodyCelld.Lib.Bytes
import KodyCelld.Lib.Url
import Mathlib.Data.List.DropRight

namespace KodyCelld.Lib

/-!
# Hosts and paths of web URLs

What a program relies on that takes URLs apart, changes their paths and puts texts together to URLs.

* `percentEncode` — the characters that a component does not keep, byte by byte;
* `UrlSetters` — a parser with the setters of the query and of the path;
* `UrlSetters.Hosted` — the setters, and what is appended to a URL, leave its host alone.
-/

/-! ### Percent-encoding -/

def upperHex (n : ℕ) : Char := ("0123456789ABCDEF" : Text).getD n '0'

def percentByte (b : UInt8) : Text := ['%', upperHex (b.toNat / 16), upperHex (b.toNat % 16)]

def percentEncode (keep : Char → Bool) (s : Text) : Text :=
  s.flatMap fun c => if keep c then [c] else (utf8Bytes c).flatMap percentByte

/-- Printable ASCII without the space. -/
def isPrintable (c : Char) : Bool := '!' ≤ c && c ≤ '~'

/-- `{`, `}`, `^` and the backtick. -/
def pathOnly : List Char := [Char.ofNat 0x7b, Char.ofNat 0x7d, '^', Char.ofNat 0x60]

/-- The characters that a path keeps as they are. -/
def keptInPath (c : Char) : Bool :=
  isPrintable c && decide (c ∉ ['"', '#', '<', '>', '?']) && decide (c ∉ pathOnly)

/-- Those that a fragment keeps. -/
def keptInFragment (c : Char) : Bool :=
  isPrintable c && decide (c ∉ ['"', '<', '>', Char.ofNat 0x60])

section
variable {keep : Char → Bool} {c : Char} {s rest : Text}

theorem upperHex_cases (n : ℕ) : upperHex n ∈ ("0123456789ABCDEF" : Text) := by
  unfold upperHex
  rw [List.getD_eq_getElem?_getD]
  cases hn : ("0123456789ABCDEF" : Text)[n]? with
  | none => decide
  | some c => exact List.mem_of_getElem? hn

/-- The characters that an encoding is made of are kept. -/
def KeepsEscapes (keep : Char → Bool) : Prop :=
  ∀ c ∈ '%' :: ("0123456789ABCDEF" : Text), keep c = true

theorem keepsEscapes_path : KeepsEscapes keptInPath := by
  unfold KeepsEscapes
  decide

theorem keepsEscapes_fragment : KeepsEscapes keptInFragment := by
  unfold KeepsEscapes
  decide

theorem percentEncode_kept (hkeep : KeepsEscapes keep) : ∀ c ∈ percentEncode keep s, keep c = true := by
  intro c hc
  obtain ⟨d, -, hd⟩ := List.mem_flatMap.mp hc
  split at hd
  · rename_i hkept
    rw [List.mem_singleton.mp hd]
    exact hkept
  · obtain ⟨b, -, hb⟩ := List.mem_flatMap.mp hd
    refine hkeep c ?_
    rcases List.mem_cons.mp hb with rfl | hb
    · exact List.mem_cons_self
    · refine List.mem_cons_of_mem _ ?_
      rcases List.mem_cons.mp hb with rfl | hb
      · exact upperHex_cases _
      · rw [List.mem_singleton.mp hb]
        exact upperHex_cases _

theorem percentEncode_of_kept (h : ∀ c ∈ s, keep c = true) : percentEncode keep s = s := by
  induction s with
  | nil => rfl
  | cons c rest ih =>
    have hc : keep c = true := h c List.mem_cons_self
    have hrest := ih fun d hd => h d (List.mem_cons_of_mem _ hd)
    unfold percentEncode at hrest ⊢
    rw [List.flatMap_cons, if_pos hc, hrest, List.singleton_append]

theorem percentEncode_head {c : Char} (hc : keep c = true) (h : s.head? = some c) :
    (percentEncode keep s).head? = some c := by
  obtain ⟨rest, rfl⟩ := List.head?_eq_some_iff.mp h
  unfold percentEncode
  rw [List.flatMap_cons, if_pos hc]
  rfl

/-- The escape of a character: a percent sign and digits. -/
theorem escape_spec (c : Char) : ∃ rest, (utf8Bytes c).flatMap percentByte = '%' :: rest ∧
    rest ≠ [] ∧ ∀ d ∈ rest, d ∈ '%' :: ("0123456789ABCDEF" : Text) := by
  obtain ⟨b, bytes, hbytes⟩ : ∃ b bytes, utf8Bytes c = b :: bytes := by
    unfold utf8Bytes
    dsimp only
    split_ifs
    all_goals exact ⟨_, _, rfl⟩
  refine ⟨_, by rw [hbytes, List.flatMap_cons, percentByte, List.cons_append], ?_, ?_⟩
  · exact List.append_ne_nil_of_left_ne_nil (List.cons_ne_nil _ _) _
  · intro d hd
    rcases List.mem_append.mp hd with hd | hd
    · refine List.mem_cons_of_mem _ ?_
      simp only [List.mem_cons, List.not_mem_nil, or_false] at hd
      rcases hd with rfl | rfl
      · exact upperHex_cases _
      · exact upperHex_cases _
    · obtain ⟨b', -, hb'⟩ := List.mem_flatMap.mp hd
      simp only [percentByte, List.mem_cons, List.not_mem_nil, or_false] at hb'
      rcases hb' with rfl | rfl | rfl
      · exact List.mem_cons_self
      · exact List.mem_cons_of_mem _ (upperHex_cases _)
      · exact List.mem_cons_of_mem _ (upperHex_cases _)

theorem percentEncode_cons_kept (hc : keep c = true) :
    percentEncode keep (c :: rest) = c :: percentEncode keep rest := by
  unfold percentEncode
  rw [List.flatMap_cons, if_pos hc, List.singleton_append]

theorem percentEncode_cons_escaped (hc : ¬ keep c = true) :
    percentEncode keep (c :: rest) =
      (utf8Bytes c).flatMap percentByte ++ percentEncode keep rest := by
  unfold percentEncode
  rw [List.flatMap_cons, if_neg hc]

theorem percentEncode_append (a b : Text) :
    percentEncode keep (a ++ b) = percentEncode keep a ++ percentEncode keep b :=
  List.flatMap_append

theorem percentEncode_ne_nil (h : s ≠ []) : percentEncode keep s ≠ [] := by
  obtain ⟨c, rest, rfl⟩ := List.exists_cons_of_ne_nil h
  by_cases hc : keep c = true
  · rw [percentEncode_cons_kept hc]
    exact List.cons_ne_nil _ _
  · obtain ⟨escape, hescape, -, -⟩ := escape_spec c
    rw [percentEncode_cons_escaped hc, hescape]
    exact List.cons_ne_nil _ _

end

/-! ### Paths -/

/-- `text.replace(/\/+$/, '')` -/
def stripSlashes (text : Text) : Text := text.rdropWhile (· = '/')

/-- `/a/b` -/
def pathText (segs : List Text) : Text := segs.flatMap fun s => '/' :: s

theorem pathText_append (a b : List Text) : pathText (a ++ b) = pathText a ++ pathText b :=
  List.flatMap_append

/-- A path is split into the segments that it was made of, -/
theorem splitOn_append_pathText {s : Text} {segs : List Text} (hs : '/' ∉ s)
    (hsegs : ∀ seg ∈ segs, '/' ∉ seg) : (s ++ pathText segs).splitOn '/' = s :: segs := by
  induction segs generalizing s with
  | nil =>
    have hnil : s ++ pathText [] = s := List.append_nil s
    rw [hnil]
    exact List.splitOn_eq_singleton hs
  | cons seg segs ih =>
    obtain ⟨hseg, hsegs⟩ := List.forall_mem_cons.mp hsegs
    have hcons : pathText (seg :: segs) = '/' :: (seg ++ pathText segs) := rfl
    rw [hcons, List.splitOn_append_cons_self_of_not_mem hs, ih hseg hsegs]

theorem splitOn_pathText {segs : List Text} (h : ∀ seg ∈ segs, '/' ∉ seg) :
    (pathText segs).splitOn '/' = [] :: segs :=
  splitOn_append_pathText List.not_mem_nil h

/-- and joining its segments gives it back. -/
theorem pathText_eq_intercalate {segs : List Text} (hne : segs ≠ []) :
    pathText segs = '/' :: ['/'].intercalate segs := by
  induction segs with
  | nil => exact absurd rfl hne
  | cons seg segs ih =>
    cases segs with
    | nil =>
      show '/' :: (seg ++ []) = _
      rw [List.append_nil, List.intercalate_singleton]
    | cons next more =>
      have hrest := ih (List.cons_ne_nil next more)
      show '/' :: (seg ++ pathText (next :: more)) = _
      rw [hrest, List.intercalate_cons_cons]
      simp

/-- Segments that lead to another directory, also when they are written with `%2e`. -/
def isDotSegment (s : Text) : Bool :=
  decide (lower s ∈ ([".", "..", "%2e", ".%2e", "%2e.", "%2e%2e"] : List Text))

/-- A segment that is read as it is written. -/
structure PlainSegment (s : Text) : Prop where
  nonempty : s ≠ []
  kept : ∀ c ∈ s, keptInPath c = true
  inside : ∀ c ∈ s, c ≠ '/' ∧ c ≠ '\\'
  still : isDotSegment s = false

theorem PlainSegment.slash {s : Text} (h : PlainSegment s) : s ≠ [] ∧ '/' ∉ s :=
  ⟨h.nonempty, fun hmem => (h.inside _ hmem).1 rfl⟩

theorem pathText_kept {segs : List Text} (h : ∀ s ∈ segs, PlainSegment s) :
    ∀ c ∈ pathText segs, keptInPath c = true := by
  intro c hc
  obtain ⟨seg, hseg, hc⟩ := List.mem_flatMap.mp hc
  rcases List.mem_cons.mp hc with rfl | hc
  · decide
  · exact (h seg hseg).kept c hc

/-- A parser drops control characters and spaces at the end of its text. -/
def stripControls (text : Text) : Text := text.rdropWhile (· ≤ ' ')

/-! ### Hosts -/

/-- The components that say who answers. -/
structure Url.SameHost (a b : Url) : Prop where
  protocol : a.protocol = b.protocol
  username : a.username = b.username
  password : a.password = b.password
  hostname : a.hostname = b.hostname

def Url.IsHttp (url : Url) : Prop := url.protocol = "http:" ∨ url.protocol = "https:"

/-- A parsed URL, in its serialised form. -/
def UrlParser.Known (u : UrlParser) (url : Url) : Prop := u.parse url.href = some url

/-- A parser with `url.search = text` and `url.pathname = text`. -/
structure UrlSetters extends UrlParser where
  setSearch : (text : Text) → Url → Url
  setPathname : (text : Text) → Url → Url

/-- Components that are set, and text that follows the path, do not reach the host. -/
structure UrlSetters.Hosted (u : UrlSetters) : Prop where
  lawful : u.Lawful
  setSearch : ∀ text url, u.Known url → url.IsHttp → u.Known (u.setSearch text url) ∧
    (u.setSearch text url).SameHost url ∧ (u.setSearch text url).hash = url.hash
  noSearch : ∀ url, (u.setSearch [] url).search = []
  setPathname : ∀ text url, u.Known url → url.IsHttp → u.Known (u.setPathname text url) ∧
    (u.setPathname text url).SameHost url ∧
    (u.setPathname text url).search = url.search ∧ (u.setPathname text url).hash = url.hash
  /-- After a path that ends the URL there may be more of the path, and a query. -/
  below : ∀ url, u.Known url → url.IsHttp → url.search = [] → url.hash = [] →
    ∀ rest, rest = [] ∨ rest.head? = some '/' →
      ∃ v, u.parse (stripSlashes url.href ++ rest) = some v ∧ v.SameHost url
  /-- The scheme stays what it is, whatever it is. -/
  scheme : ∀ text url, u.parse text = some url → ∀ path rest v,
    rest = [] ∨ rest.head? = some '/' →
    u.parse (stripSlashes (u.setPathname path (u.setSearch [] url.withoutHash)).href ++ rest) =
      some v → v.protocol = url.protocol

end KodyCelld.Lib
