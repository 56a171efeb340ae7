import KodyCelld.Lib.Bytes
import KodyCelld.Lib.Json
import KodyCelld.Lib.NumberText

namespace KodyCelld.Lib

/-!
# JSON texts and their sizes

* `jsonStringify` — the text of a value;
* `utf8Size` — the bytes of a text;
* `utf8Size_jsonArray` — an array is as large as its items, the commas and the brackets.
-/

mutual

/-- `JSON.stringify(value)` -/
def jsonStringify : Json → Text
  | .null => "null"
  | .bool b => jsonBool b
  | .num (.fin q) => numberText (.fin q)
  | .num _ => "null"
  | .str s => jsonString s
  | .arr items => jsonArray (stringifyItems items)
  | .obj members => jsonObject (stringifyMembers members)

def stringifyItems : List Json → List Text
  | [] => []
  | item :: items => jsonStringify item :: stringifyItems items

def stringifyMembers : List (Text × Json) → List (Text × Text)
  | [] => []
  | (key, value) :: members => (key, jsonStringify value) :: stringifyMembers members

end

/-- `new TextEncoder().encode(text).length` -/
def utf8Size (text : Text) : ℕ := (utf8Encode text).length

@[simp] theorem utf8Size_nil : utf8Size [] = 0 := rfl

theorem utf8Size_append (a b : Text) : utf8Size (a ++ b) = utf8Size a + utf8Size b := by
  unfold utf8Size utf8Encode
  rw [List.flatMap_append, List.length_append]

theorem utf8Size_cons (c : Char) (text : Text) :
    utf8Size (c :: text) = (utf8Bytes c).length + utf8Size text := by
  unfold utf8Size utf8Encode
  rw [List.flatMap_cons, List.length_append]

/-- **The size of an array**: its items, a comma between two of them, and the brackets. -/
theorem utf8Size_jsonArray (items : List Text) :
    utf8Size (jsonArray items) = 2 + (items.length - 1) + (items.map utf8Size).sum := by
  have hjoin : ∀ items : List Text,
      utf8Size ([','].intercalate items) = (items.length - 1) + (items.map utf8Size).sum := by
    intro items
    induction items with
    | nil => rfl
    | cons item items ih =>
      cases items with
      | nil => simp [List.intercalate]
      | cons next items =>
        have hcomma : utf8Size [','] = 1 := by decide
        rw [List.intercalate_cons_cons, utf8Size_append, utf8Size_append, hcomma, ih]
        simp only [List.map_cons, List.sum_cons, List.length_cons]
        omega
  have hopen : (utf8Bytes '[').length = 1 := by decide
  have hclose : utf8Size [']'] = 1 := by decide
  show utf8Size ('[' :: ([','].intercalate items ++ [']'])) = _
  rw [utf8Size_cons, utf8Size_append, hopen, hclose, hjoin]
  omega

end KodyCelld.Lib
