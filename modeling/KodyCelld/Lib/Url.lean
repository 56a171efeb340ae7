import KodyCelld.Lib.Js
import Mathlib.Data.List.TakeWhile

namespace KodyCelld.Lib

/-!
# URLs

The WHATWG URL parser is taken as given: a program that uses it is a function of a `UrlParser`, and
what it relies on is a hypothesis about that.

* `Url` — the components of a parsed URL, as their getters return them;
* `UrlParser` — `new URL(text)` and `new URL(text, base)`;
* `UrlParser.Reparses` — the serialisation of a URL parses to that URL;
* `UrlParser.Lawful` — so does that of a resolved URL, and of one that lost its fragment.
-/

structure Url where
  href : Text
  origin : Text
  protocol : Text
  username : Text
  password : Text
  hostname : Text
  port : Text
  pathname : Text
  search : Text
  hash : Text
  deriving DecidableEq, Repr

/-- The host with its port, if it has one. -/
def Url.host (url : Url) : Text :=
  if url.port = [] then url.hostname else url.hostname ++ ':' :: url.port

/-- `new URL(text)` and `new URL(text, base)`; `none` where they throw. -/
structure UrlParser where
  parse : Text → Option Url
  resolve : Text → Url → Option Url

/-- A parser with `url.searchParams.set(name, value)`. -/
structure UrlApi extends UrlParser where
  setParam : (name value : Text) → Url → Url

/-- The serialisation of a parsed URL parses to the same URL. -/
def UrlParser.Reparses (u : UrlParser) : Prop :=
  ∀ text url, u.parse text = some url → u.parse url.href = some url

/-- A text that is the serialisation of the URL it parses to. -/
def UrlParser.Normal (u : UrlParser) (text : Text) : Prop :=
  ∃ url, u.parse text = some url ∧ url.href = text

/-- `url.hash = ''` -/
def Url.withoutHash (url : Url) : Url :=
  { url with href := url.href.takeWhile (· ≠ '#'), hash := [] }

@[simp] theorem Url.withoutHash_origin (url : Url) : url.withoutHash.origin = url.origin := rfl

theorem Url.withoutHash_withoutHash (url : Url) : url.withoutHash.withoutHash = url.withoutHash := by
  unfold Url.withoutHash
  simp only [List.takeWhile_idem]

/-- What holds of the parser where a program serialises the URLs it resolved or changed. -/
structure UrlParser.Lawful (u : UrlParser) : Prop where
  reparses : u.Reparses
  resolves : ∀ text base url, u.resolve text base = some url → u.parse url.href = some url
  /-- Outside http a path may end in spaces that its fragment protects. -/
  fragment : ∀ text url, u.parse text = some url → url.protocol = "http:" ∨ url.protocol = "https:" →
    u.parse url.withoutHash.href = some url.withoutHash

/-- A parser that knows the URLs of a table, each by the texts that are given for it. -/
def tableParser (table : List (Text × Url)) : UrlParser where
  parse text := (table.find? fun row => row.1 = text).map Prod.snd
  resolve _ _ := none

theorem tableParser_reparses {table : List (Text × Url)}
    (h : ∀ row ∈ table, (tableParser table).parse row.2.href = some row.2) :
    (tableParser table).Reparses := by
  intro text url hparse
  obtain ⟨row, hrow, rfl⟩ := Option.map_eq_some_iff.mp hparse
  exact h row (List.mem_of_find?_eq_some hrow)

/-- A parser of the URLs of a table, each reference being one of its texts. -/
def absoluteParser (table : List (Text × Url)) : UrlParser where
  parse := (tableParser table).parse
  resolve text _ := (tableParser table).parse text

theorem absoluteParser_lawful {table : List (Text × Url)}
    (h : ∀ row ∈ table, (tableParser table).parse row.2.href = some row.2)
    (hhash : ∀ row ∈ table, row.2.withoutHash = row.2) : (absoluteParser table).Lawful where
  reparses := tableParser_reparses h
  resolves := fun text _ url hresolve => tableParser_reparses h text url hresolve
  fragment := fun text url hparse _ => by
    obtain ⟨row, hrow, rfl⟩ := Option.map_eq_some_iff.mp hparse
    have hmem : row ∈ table := List.mem_of_find?_eq_some hrow
    rw [hhash row hmem]
    exact h row hmem

end KodyCelld.Lib
