import KodyCelld.Lib.Js
import Mathlib.Data.List.Nodup

namespace KodyCelld.Lib

/-!
# JavaScript objects and JSON

* `Obj` — a plain object used as a dictionary: its own properties in the order `Object.entries`
  lists them, each key once;
* `Json` — what `JSON.parse` returns, with the parser `jsonParse`;
* `jsonString`, `jsonArray`, `jsonObject` — the pieces of `JSON.stringify`.
-/

/-! ### Objects -/

/-- The own properties of an object literal, in property order. -/
structure Obj (α : Type) where
  entries : List (Text × α)
  nodup : (entries.map Prod.fst).Nodup
  deriving DecidableEq

/-- The keys every object inherits from `Object.prototype`. -/
def objectPrototype : List Text :=
  ["constructor", "__defineGetter__", "__defineSetter__", "hasOwnProperty", "__lookupGetter__",
    "__lookupSetter__", "isPrototypeOf", "propertyIsEnumerable", "toString", "valueOf",
    "__proto__", "toLocaleString"]

/-- The key as an array index; such keys come first in property order. -/
def arrayIndex? (key : Text) : Option ℕ :=
  let n := digitsVal key
  if key ≠ [] ∧ key.all isDigit ∧ natText n = key ∧ n < 4294967295 then some n else none

/-- Whether a new property `key` is listed before the property `other`. -/
def keyBefore (key other : Text) : Bool :=
  match arrayIndex? key, arrayIndex? other with
  | some n, some m => decide (n < m)
  | some _, none => true
  | none, _ => false

/-- Adds a property in property order, or overwrites it where it stands. -/
def defineEntry {α : Type} (key : Text) (value : α) : List (Text × α) → List (Text × α)
  | [] => [(key, value)]
  | (k, v) :: rest =>
    if k = key then (key, value) :: rest
    else if keyBefore key k && !((rest.map Prod.fst).contains key) then (key, value) :: (k, v) :: rest
    else (k, v) :: defineEntry key value rest

section
variable {α : Type}

theorem mem_keys_defineEntry {key k : Text} {value : α} {entries : List (Text × α)} :
    k ∈ (defineEntry key value entries).map Prod.fst ↔ k = key ∨ k ∈ entries.map Prod.fst := by
  induction entries with
  | nil => simp [defineEntry]
  | cons e rest ih =>
    obtain ⟨k', v⟩ := e
    rw [defineEntry]
    split
    · rename_i heq
      subst heq
      simp
    · split
      · simp
      · simp only [List.map_cons, List.mem_cons, ih]
        tauto

theorem nodup_defineEntry {key : Text} {value : α} {entries : List (Text × α)}
    (h : (entries.map Prod.fst).Nodup) : ((defineEntry key value entries).map Prod.fst).Nodup := by
  induction entries with
  | nil => simp [defineEntry]
  | cons e rest ih =>
    obtain ⟨k', v⟩ := e
    rw [List.map_cons, List.nodup_cons] at h
    rw [defineEntry]
    split
    · rename_i heq
      subst heq
      simpa using h
    · rename_i hne
      split
      · rename_i hbefore
        rw [Bool.and_eq_true, Bool.not_eq_true', List.contains_eq_mem,
          decide_eq_false_iff_not] at hbefore
        rw [List.map_cons, List.map_cons, List.nodup_cons, List.nodup_cons]
        refine ⟨?_, h⟩
        rw [List.mem_cons, not_or]
        exact ⟨Ne.symm hne, hbefore.2⟩
      · rw [List.map_cons, List.nodup_cons]
        refine ⟨?_, ih h.2⟩
        rw [mem_keys_defineEntry, not_or]
        exact ⟨hne, h.1⟩

theorem find?_defineEntry {key k : Text} {value : α} {entries : List (Text × α)} :
    (defineEntry key value entries).find? (fun e => e.1 = k) =
      if key = k then some (key, value) else entries.find? (fun e => e.1 = k) := by
  induction entries with
  | nil => by_cases h : key = k <;> simp [defineEntry, h]
  | cons e rest ih =>
    obtain ⟨k', v⟩ := e
    rw [defineEntry]
    split
    · rename_i heq
      subst heq
      by_cases h : k' = k <;> simp [h]
    · rename_i hne
      split
      · by_cases h : key = k <;> simp [h]
      · by_cases h : k' = k
        · subst h
          simp [Ne.symm hne]
        · simpa [h] using ih

namespace Obj

/-- `{}` -/
def empty : Obj α := ⟨[], List.nodup_nil⟩

/-- `CreateDataProperty`, as `JSON.parse` and object literals use it. -/
def define (o : Obj α) (key : Text) (value : α) : Obj α :=
  ⟨defineEntry key value o.entries, nodup_defineEntry o.nodup⟩

/-- `o[key] = value`.  Assigning a text to `__proto__` has no effect. -/
def set (o : Obj α) (key : Text) (value : α) : Obj α :=
  if key = "__proto__" then o else o.define key value

/-- The own property `key`. -/
def get? (o : Obj α) (key : Text) : Option α :=
  (o.entries.find? fun e => e.1 = key).map Prod.snd

/-- `Object.keys(o)` -/
def keys (o : Obj α) : List Text := o.entries.map Prod.fst

/-- `key in o` -/
def hasProperty (o : Obj α) (key : Text) : Bool :=
  decide (key ∈ o.keys) || decide (key ∈ objectPrototype)

@[simp] theorem get?_empty (key : Text) : (empty : Obj α).get? key = none := rfl

theorem get?_define (o : Obj α) (key k : Text) (value : α) :
    (o.define key value).get? k = if key = k then some value else o.get? k := by
  unfold define get?
  rw [find?_defineEntry]
  split <;> rfl

theorem get?_eq_some_iff {o : Obj α} {key : Text} {value : α} :
    o.get? key = some value ↔ (key, value) ∈ o.entries := by
  unfold get?
  constructor
  · intro h
    obtain ⟨e, he, rfl⟩ := Option.map_eq_some_iff.mp h
    have hkey : e.1 = key := by simpa using List.find?_some he
    exact hkey ▸ List.mem_of_find?_eq_some he
  · intro h
    have hsome : (o.entries.find? fun e => e.1 = key).isSome := by
      rw [List.find?_isSome]
      exact ⟨_, h, by simp⟩
    obtain ⟨e, he⟩ := Option.isSome_iff_exists.mp hsome
    have hkey : e.1 = key := by simpa using List.find?_some he
    have hsame : e = (key, value) :=
      List.inj_on_of_nodup_map o.nodup (List.mem_of_find?_eq_some he) h hkey
    rw [he, hsame]
    rfl

/-- All own keys satisfy a predicate. -/
def AllKeys (P : Text → Prop) (o : Obj α) : Prop := ∀ key ∈ o.keys, P key

theorem allKeys_empty (P : Text → Prop) : AllKeys P (empty : Obj α) := by
  intro key hkey
  cases hkey

/-- An assignment adds its key, if not the one that it ignores. -/
theorem allKeys_set {P : Text → Prop} (hproto : P "__proto__") {o : Obj α} {key : Text} {value : α} :
    AllKeys P (o.set key value) ↔ AllKeys P o ∧ P key := by
  unfold set
  split
  · rename_i heq
    rw [heq]
    exact ⟨fun h => ⟨h, hproto⟩, And.left⟩
  · have hkeys : ∀ k, k ∈ (o.define key value).keys ↔ k = key ∨ k ∈ o.keys := fun k =>
      mem_keys_defineEntry
    simp only [AllKeys, hkeys, forall_eq_or_imp]
    exact And.comm

end Obj

end

/-! ### JSON values -/

/-- What `JSON.parse` returns; the members of an object are in property order. -/
inductive Json where
  | null
  | bool (b : Bool)
  | num (n : Num)
  | str (s : Text)
  | arr (items : List Json)
  | obj (members : List (Text × Json))

namespace Json

/-- `raw.key` on an object; `none` for `undefined`. -/
def member (members : List (Text × Json)) (key : Text) : Option Json :=
  (members.find? fun m => m.1 = key).map Prod.snd

/-- `typeof raw === 'string'` -/
def text? : Option Json → Option Text
  | some (.str s) => some s
  | _ => none

/-- `isRecord(raw)` -/
def record? : Option Json → Option (List (Text × Json))
  | some (.obj members) => some members
  | _ => none

/-- `raw ?? fallback` -/
def orElse (raw : Option Json) (fallback : Json) : Json :=
  match raw with
  | none => fallback
  | some .null => fallback
  | some j => j

end Json

/-! ### `JSON.parse` -/

/-- The white space of JSON. -/
def skipJsonSpace : Text → Text := List.dropWhile fun c => c ∈ ['\t', '\n', '\r', ' ']

def hexDigit? (c : Char) : Option ℕ :=
  if isDigit c then some (c.toNat - '0'.toNat)
  else if 'a' ≤ c ∧ c ≤ 'f' then some (c.toNat - 'a'.toNat + 10)
  else if 'A' ≤ c ∧ c ≤ 'F' then some (c.toNat - 'A'.toNat + 10)
  else none

/-- Four hexadecimal digits. -/
def hex4 : Text → Option (ℕ × Text)
  | a :: b :: c :: d :: rest => do
    let a ← hexDigit? a
    let b ← hexDigit? b
    let c ← hexDigit? c
    let d ← hexDigit? d
    return (((a * 16 + b) * 16 + c) * 16 + d, rest)
  | _ => none

/-- The character after a backslash, when it is a one-letter escape. -/
def simpleEscape? (c : Char) : Option Char :=
  if c = '"' ∨ c = '\\' ∨ c = '/' then some c
  else if c = 'b' then some '\x08'
  else if c = 'f' then some '\x0c'
  else if c = 'n' then some '\n'
  else if c = 'r' then some '\r'
  else if c = 't' then some '\t'
  else none

/-- A string literal after its opening quote; `fuel` bounds its length.  A lone surrogate escape
    is read as U+FFFD, what UTF-8 storage makes of it. -/
def jsonStringBody : (fuel : ℕ) → Text → Option (Text × Text)
  | 0, _ => none
  | _, [] => none
  | fuel + 1, c :: rest =>
    if c = '"' then some ([], rest)
    else if c = '\\' then
      match rest with
      | [] => none
      | e :: rest =>
        if e = 'u' then do
          let (hi, rest) ← hex4 rest
          let pair : Option (ℕ × Text) :=
            if 0xd800 ≤ hi ∧ hi < 0xdc00 then
              match rest with
              | b :: u :: more =>
                if b = '\\' ∧ u = 'u' then do
                  let (lo, more) ← hex4 more
                  if 0xdc00 ≤ lo ∧ lo < 0xe000 then
                    some (0x10000 + (hi - 0xd800) * 0x400 + (lo - 0xdc00), more)
                  else none
                else none
              | _ => none
            else none
          let (code, rest) := pair.getD (if 0xd800 ≤ hi ∧ hi < 0xe000 then 0xfffd else hi, rest)
          let (s, rest) ← jsonStringBody fuel rest
          return (Char.ofNat code :: s, rest)
        else do
          let ch ← simpleEscape? e
          let (s, rest) ← jsonStringBody fuel rest
          return (ch :: s, rest)
    else if c.toNat < 0x20 then none
    else do
      let (s, rest) ← jsonStringBody fuel rest
      return (c :: s, rest)

/-- A number token: `-?(0|[1-9]\d*)(\.\d+)?([eE][+-]?\d+)?` -/
def jsonNumber (s : Text) : Option (Num × Text) :=
  let (sign, s) := match s with
    | '-' :: r => (['-'], r)
    | _ => ([], s)
  let int := match s with
    | '0' :: _ => ['0']
    | _ => s.takeWhile isDigit
  let s := s.drop int.length
  let (frac, s) := match s with
    | '.' :: r =>
      if r.takeWhile isDigit = [] then ([], s) else ('.' :: r.takeWhile isDigit, r.dropWhile isDigit)
    | _ => ([], s)
  let (exp, s) := match s with
    | e :: r =>
      if e = 'e' ∨ e = 'E' then
        let (mark, ds) := match r with
          | '+' :: ds => (['+'], ds)
          | '-' :: ds => (['-'], ds)
          | _ => ([], r)
        if ds.takeWhile isDigit = [] then ([], s)
        else ('e' :: mark ++ ds.takeWhile isDigit, ds.dropWhile isDigit)
      else ([], s)
    | [] => ([], s)
  if int = [] then none else some (numberOf (sign ++ int ++ frac ++ exp), s)

/-- What follows the word, when the text starts with it. -/
def stripWord? (word s : Text) : Option Text :=
  if word.isPrefixOf s then some (s.drop word.length) else none

mutual

/-- A value, with the white space before it; `fuel` bounds the nesting and the members. -/
def jsonValue : (fuel : ℕ) → Text → Option (Json × Text)
  | 0, _ => none
  | fuel + 1, s =>
    match skipJsonSpace s with
    | '"' :: r => (jsonStringBody (r.length + 1) r).map fun p => (.str p.1, p.2)
    | '[' :: r =>
      match skipJsonSpace r with
      | ']' :: rest => some (.arr [], rest)
      | _ => (jsonElements fuel r).map fun p => (.arr p.1, p.2)
    | '\x7b' :: r =>
      match skipJsonSpace r with
      | '\x7d' :: rest => some (.obj [], rest)
      | _ => (jsonMembers fuel r []).map fun p => (.obj p.1, p.2)
    | r =>
      match stripWord? "null" r, stripWord? "true" r, stripWord? "false" r with
      | some rest, _, _ => some (.null, rest)
      | _, some rest, _ => some (.bool true, rest)
      | _, _, some rest => some (.bool false, rest)
      | _, _, _ => (jsonNumber r).map fun p => (.num p.1, p.2)

def jsonElements : (fuel : ℕ) → Text → Option (List Json × Text)
  | 0, _ => none
  | fuel + 1, s =>
    match jsonValue fuel s with
    | none => none
    | some (j, s) =>
      match skipJsonSpace s with
      | ',' :: rest => (jsonElements fuel rest).map fun p => (j :: p.1, p.2)
      | ']' :: rest => some ([j], rest)
      | _ => none

/-- The members of an object; a repeated key keeps its place and takes the later value. -/
def jsonMembers : (fuel : ℕ) → Text → List (Text × Json) → Option (List (Text × Json) × Text)
  | 0, _, _ => none
  | fuel + 1, s, members =>
    match skipJsonSpace s with
    | '"' :: r =>
      match jsonStringBody (r.length + 1) r with
      | none => none
      | some (key, s) =>
        match skipJsonSpace s with
        | ':' :: s =>
          match jsonValue fuel s with
          | none => none
          | some (value, s) =>
            let members := defineEntry key value members
            match skipJsonSpace s with
            | ',' :: rest => jsonMembers fuel rest members
            | '\x7d' :: rest => some (members, rest)
            | _ => none
        | _ => none
    | _ => none

end

/-- `JSON.parse(text)`; `none` where it throws.  Each level and each member consumes a character,
    so twice the length is enough fuel. -/
def jsonParse (text : Text) : Option Json :=
  match jsonValue (2 * text.length + 2) text with
  | some (j, rest) => if skipJsonSpace rest = [] then some j else none
  | none => none

/-! ### `JSON.stringify` -/

def hexChar (n : ℕ) : Char := ("0123456789abcdef" : Text).getD n '0'

/-- One character inside a quoted text. -/
def jsonEscape (c : Char) : Text :=
  if c = '"' then ['\\', '"']
  else if c = '\\' then ['\\', '\\']
  else if c = '\x08' then ['\\', 'b']
  else if c = '\x0c' then ['\\', 'f']
  else if c = '\n' then ['\\', 'n']
  else if c = '\r' then ['\\', 'r']
  else if c = '\t' then ['\\', 't']
  else if c.toNat < 0x20 then ['\\', 'u', '0', '0', hexChar (c.toNat / 16), hexChar (c.toNat % 16)]
  else [c]

def jsonString (s : Text) : Text := '"' :: s.flatMap jsonEscape ++ ['"']

def jsonBool (b : Bool) : Text := if b then "true" else "false"

/-- An array of values that are already written. -/
def jsonArray (items : List Text) : Text := '[' :: [','].intercalate items ++ [']']

/-- An object of members whose values are already written. -/
def jsonObject (members : List (Text × Text)) : Text :=
  '\x7b' :: [','].intercalate (members.map fun m => jsonString m.1 ++ ':' :: m.2) ++ ['\x7d']

def jsonMember (key value : Text) : List (Text × Text) := [(key, value)]

/-- A member that is left out when its value is `undefined`. -/
def optionalMember (key : Text) (value : Option Text) : List (Text × Text) :=
  match value with
  | none => []
  | some v => [(key, v)]

end KodyCelld.Lib
