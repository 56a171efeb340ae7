import KodyCelld.Lib.Texts
import Mathlib.Data.List.TakeWhile

namespace KodyCelld.Lib

/-!
# Cookies in a browser

How a user agent reads a `Set-Cookie` header and writes a `Cookie` header (RFC 6265bis), and how a
reader of `name=value` pairs takes one apart.  A cookie may be nameless.

* `parseSetCookie` — the name and value that are stored, attributes apart;
* `cookieHeader`, `readCookies` — the text of cookies that are sent, and the pairs in it;
* `readCookies_joinPairs` — the pairs of a text are those of its pieces;
* `parseSetCookie_some` — where the name and the value of a cookie come from.
-/

/-! ### Space -/

/-- The white space of HTTP. -/
def isWsp (c : Char) : Bool := decide (c = ' ' ∨ c = '\t')

theorem isSpace_of_isWsp {c : Char} (h : isWsp c = true) : isSpace c = true := by
  rcases of_decide_eq_true h with rfl | rfl
  · decide
  · decide

def trimWsp (text : Text) : Text := ((text.dropWhile isWsp).reverse.dropWhile isWsp).reverse

/-- What is trimmed is the text between white space. -/
theorem trimWsp_between (text : Text) : ∃ before after, text = before ++ (trimWsp text ++ after) ∧
    (∀ c ∈ before, isWsp c = true) ∧ ∀ c ∈ after, isWsp c = true := by
  refine ⟨text.takeWhile isWsp, ((text.dropWhile isWsp).reverse.takeWhile isWsp).reverse, ?_, ?_, ?_⟩
  · unfold trimWsp
    rw [← List.reverse_append, List.takeWhile_append_dropWhile, List.reverse_reverse,
      List.takeWhile_append_dropWhile]
  · exact fun c hc => List.mem_takeWhile_imp hc
  · exact fun c hc => List.mem_takeWhile_imp (List.mem_reverse.mp hc)

theorem trim_trimWsp (text : Text) : trim (trimWsp text) = trim text := by
  obtain ⟨before, after, htext, hbefore, hafter⟩ := trimWsp_between text
  have hwhole : trim text = trim (before ++ (trimWsp text ++ after)) := congrArg trim htext
  rw [hwhole, trim_space_append fun c hc => isSpace_of_isWsp (hbefore c hc),
    trim_append_space fun c hc => isSpace_of_isWsp (hafter c hc)]

theorem trimWsp_subset (text : Text) : trimWsp text ⊆ text := by
  obtain ⟨before, after, htext, -, -⟩ := trimWsp_between text
  intro c hc
  rw [htext]
  exact List.mem_append_right _ (List.mem_append_left _ hc)

/-! ### Pairs -/

/-- The text before the first mark. -/
def upTo (mark : Char) (text : Text) : Text := text.takeWhile fun c => decide (c ≠ mark)

theorem upTo_subset (mark : Char) (text : Text) : upTo mark text ⊆ text :=
  (List.takeWhile_prefix _).subset

theorem not_mem_upTo (mark : Char) (text : Text) : mark ∉ upTo mark text := by
  intro h
  have hne := List.mem_takeWhile_imp h
  simp at hne

theorem upTo_append {mark : Char} {text : Text} (h : mark ∉ text) (rest : Text) :
    upTo mark (text ++ mark :: rest) = text := by
  have htext : ∀ c ∈ text, decide (c ≠ mark) = true := by
    intro c hc
    rw [decide_eq_true_eq]
    rintro rfl
    exact h hc
  unfold upTo
  rw [List.takeWhile_append_of_pos htext]
  simp

/-- A pair `name=value`, if the text is one. -/
def readPair (text : Text) : Option (Text × Text) :=
  if '=' ∈ text then
    some (trim (upTo '=' text), trim ((text.dropWhile fun c => decide (c ≠ '=')).drop 1))
  else none

/-- The pairs of a `Cookie` header. -/
def readCookies (header : Text) : List (Text × Text) := (header.splitOn ';').filterMap readPair

/-- `pairs.join('; ')` -/
def joinPairs (pairs : List Text) : Text := [';', ' '].intercalate pairs

theorem readPair_space (text : Text) : readPair (' ' :: text) = readPair text := by
  have hmem : '=' ∈ ' ' :: text ↔ '=' ∈ text := by simp
  have hname : trim (upTo '=' (' ' :: text)) = trim (upTo '=' text) := by
    have hup : upTo '=' (' ' :: text) = [' '] ++ upTo '=' text := rfl
    rw [hup, trim_space_append]
    intro c hc
    rw [List.mem_singleton.mp hc]
    decide
  have hvalue : (' ' :: text).dropWhile (fun c => decide (c ≠ '=')) =
      text.dropWhile fun c => decide (c ≠ '=') := rfl
  unfold readPair
  rw [hname, hvalue]
  simp only [hmem]

/-- **The pairs of a joined text** are those of its pieces. -/
theorem readCookies_joinPairs {pairs : List Text} (h : ∀ pair ∈ pairs, ';' ∉ pair) :
    readCookies (joinPairs pairs) = pairs.filterMap readPair := by
  unfold readCookies joinPairs
  induction pairs with
  | nil => rfl
  | cons pair rest ih =>
    obtain ⟨hpair, hrest⟩ := List.forall_mem_cons.mp h
    cases rest with
    | nil =>
      rw [List.intercalate_singleton, List.splitOn_eq_singleton hpair]
    | cons next more =>
      have hjoin : [';', ' '].intercalate (pair :: next :: more) =
          pair ++ ';' :: (' ' :: [';', ' '].intercalate (next :: more)) := by
        rw [List.intercalate_cons_cons, List.append_assoc]
        rfl
      rw [hjoin, List.splitOn_append_cons_self_of_not_mem hpair]
      -- the blank belongs to the next piece, and makes no difference there
      have hblank : (' ' :: [';', ' '].intercalate (next :: more)).splitOn ';' =
          (([';', ' '].intercalate (next :: more)).splitOn ';').modifyHead (' ' :: ·) := by
        rw [List.splitOn_cons_eq_if_modifyHead]
        rfl
      obtain ⟨first, others, hsplit⟩ := List.exists_cons_of_ne_nil
        (List.splitOn_ne_nil ';' ([';', ' '].intercalate (next :: more)))
      have ih := ih hrest
      rw [hsplit] at ih
      rw [hblank, hsplit, List.modifyHead_cons, List.filterMap_cons, List.filterMap_cons,
        readPair_space, ← List.filterMap_cons, ih]
      rfl

/-! ### The user agent -/

structure Cookie where
  name : Text
  value : Text
  deriving DecidableEq, Repr

/-- The control characters that a `Set-Cookie` header may not have. -/
def isCookieControl (c : Char) : Bool :=
  decide (c.toNat ≤ 0x08) || decide (0x0a ≤ c.toNat ∧ c.toNat ≤ 0x1f) || decide (c.toNat = 0x7f)

/-- A value that a nameless cookie may not have: it would be sent like a name with a prefix. -/
def looksPrefixed (value : Text) : Bool :=
  ("__secure-" : Text).isPrefixOf (lower value) || ("__host-" : Text).isPrefixOf (lower value)

/-- The name and value of a `Set-Cookie` header before they are judged. -/
def setCookiePair (header : Text) : Cookie :=
  let pair := upTo ';' header
  if '=' ∈ pair then
    ⟨trimWsp (upTo '=' pair), trimWsp ((pair.dropWhile fun c => decide (c ≠ '=')).drop 1)⟩
  else ⟨[], trimWsp pair⟩

/-- The cookie that a `Set-Cookie` header stores, as far as its name and value decide; a character
    is an octet. -/
def parseSetCookie (header : Text) : Option Cookie :=
  let cookie := setCookiePair header
  if header.any isCookieControl then none
  else if 4096 < cookie.name.length + cookie.value.length then none
  else if cookie.name = [] ∧ (cookie.value = [] ∨ looksPrefixed cookie.value = true) then none
  else some cookie

/-- What is sent for a cookie. -/
def Cookie.text (cookie : Cookie) : Text :=
  if cookie.name = [] then cookie.value else cookie.name ++ '=' :: cookie.value

/-- The `Cookie` header with these cookies. -/
def cookieHeader (cookies : List Cookie) : Text := joinPairs (cookies.map Cookie.text)

theorem parseSetCookie_some {header : Text} {cookie : Cookie}
    (h : parseSetCookie header = some cookie) : setCookiePair header = cookie := by
  unfold parseSetCookie at h
  dsimp only at h
  split at h
  · cases h
  split at h
  · cases h
  split at h
  · cases h
  · exact Option.some.inj h

/-- The name of a stored cookie has no `=`, and neither name nor value a `;`. -/
theorem setCookiePair_marks (header : Text) : '=' ∉ (setCookiePair header).name ∧
    ';' ∉ (setCookiePair header).name ∧ ';' ∉ (setCookiePair header).value := by
  have hpair : ';' ∉ upTo ';' header := not_mem_upTo ';' header
  unfold setCookiePair
  dsimp only
  split
  · refine ⟨fun h => not_mem_upTo '=' _ (trimWsp_subset _ h),
      fun h => hpair (upTo_subset '=' _ (trimWsp_subset _ h)), fun h => hpair ?_⟩
    exact (List.dropWhile_suffix _).subset (List.drop_subset _ _ (trimWsp_subset _ h))
  · exact ⟨List.not_mem_nil, List.not_mem_nil, fun h => hpair (trimWsp_subset _ h)⟩

theorem Cookie.text_plain {header : Text} {cookie : Cookie}
    (h : parseSetCookie header = some cookie) : ';' ∉ cookie.text := by
  obtain ⟨-, hname, hvalue⟩ := setCookiePair_marks header
  rw [parseSetCookie_some h] at hname hvalue
  unfold Cookie.text
  split
  · exact hvalue
  · intro hmem
    rcases List.mem_append.mp hmem with hmem | hmem
    · exact hname hmem
    · rcases List.mem_cons.mp hmem with heq | hmem
      · exact absurd heq (by decide)
      · exact hvalue hmem

/-- **The pairs that a server reads** of cookies that were stored are those of their texts. -/
theorem mem_readCookies {cookies : List Cookie}
    (h : ∀ cookie ∈ cookies, ∃ header, parseSetCookie header = some cookie) {pair : Text × Text} :
    pair ∈ readCookies (cookieHeader cookies) ↔
      ∃ cookie ∈ cookies, readPair cookie.text = some pair := by
  unfold cookieHeader
  rw [readCookies_joinPairs]
  · rw [List.filterMap_map, List.mem_filterMap]
    rfl
  · intro text htext
    obtain ⟨cookie, hcookie, rfl⟩ := List.mem_map.mp htext
    obtain ⟨header, hheader⟩ := h cookie hcookie
    exact Cookie.text_plain hheader

/-- A cookie with a name is read under that name, trimmed. -/
theorem readPair_named {cookie : Cookie} (hname : cookie.name ≠ []) (h : '=' ∉ cookie.name)
    {pair : Text × Text} (hread : readPair cookie.text = some pair) :
    pair.1 = trim cookie.name := by
  unfold Cookie.text readPair at hread
  rw [if_neg hname, if_pos (List.mem_append_right _ List.mem_cons_self)] at hread
  rw [← Option.some.inj hread, upTo_append h]

end KodyCelld.Lib
