import KodyCelld.Lib.Texts

namespace KodyCelld.Lib

/-!
# The statements of an SQL text

* `SqlMode`, `statements` — a text cut at the semicolons outside string literals, quoted
  identifiers and comments;
* `mem_splitOn_iff` — where a piece stands in a text.
-/

/-- Where in its lexical structure an SQL text is. -/
inductive SqlMode where
  | code
  /-- In a string literal or a quoted identifier, which ends at a mark.  Two marks in a row end it
      and begin it again, so that the text goes on in it. -/
  | quoted (close : Char)
  | lineComment
  /-- After the first character of a block comment. -/
  | blockStart
  | blockComment
  /-- Before the last character of a block comment. -/
  | blockEnd
  deriving DecidableEq

/-- Where the text is after a character, given the one ahead. -/
def SqlMode.next (mode : SqlMode) (c : Char) (ahead : Option Char) : SqlMode :=
  match mode with
  | .code =>
    if c = '\x27' ∨ c = '"' ∨ c = '\x60' then .quoted c
    else if c = '[' then .quoted ']'
    else if c = '-' ∧ ahead = some '-' then .lineComment
    else if c = '/' ∧ ahead = some '*' then .blockStart
    else .code
  | .quoted close => if c = close then .code else .quoted close
  | .lineComment => if c = '\n' then .code else .lineComment
  | .blockStart => .blockComment
  | .blockComment => if c = '*' ∧ ahead = some '/' then .blockEnd else .blockComment
  | .blockEnd => .code

/-- The statements from a place on. -/
def statementsFrom : SqlMode → Text → List Text
  | _, [] => [[]]
  | mode, c :: rest =>
    if mode = .code ∧ c = ';' then [] :: statementsFrom .code rest
    else (statementsFrom (mode.next c rest.head?) rest).modifyHead (c :: ·)

/-- The statements of an SQL text. -/
def statements (text : Text) : List Text := statementsFrom .code text

/-- **Where a piece stands**: between two marks, or an end of the text, and without one. -/
theorem mem_splitOn_iff {mark : Char} {text piece : Text} : piece ∈ text.splitOn mark ↔
    ∃ front back, text = front ++ (piece ++ back) ∧ front.getLast?.all (· = mark) = true ∧
      back.head?.all (· = mark) = true ∧ mark ∉ piece := by
  constructor
  · intro h
    induction hlength : text.length using Nat.strong_induction_on generalizing text with
    | _ n ih =>
      by_cases hmark : mark ∈ text
      · obtain ⟨first, rest, rfl, hfirst⟩ := List.eq_append_cons_of_mem hmark
        rw [List.splitOn_append_cons_self_of_not_mem hfirst] at h
        rcases List.mem_cons.mp h with rfl | h
        · exact ⟨[], mark :: rest, rfl, rfl, by simp, hfirst⟩
        · -- the piece stands behind the first mark
          have hshorter : rest.length < n := by
            rw [← hlength]
            simp
            omega
          obtain ⟨front, back, hrest, hfront, hback, hpiece⟩ := ih _ hshorter h rfl
          refine ⟨first ++ mark :: front, back, ?_, ?_, hback, hpiece⟩
          · rw [hrest]
            simp
          · cases front with
            | nil => simp
            | cons c front =>
              rw [List.getLast?_append_of_ne_nil _ (by simp), List.getLast?_cons_cons]
              exact hfront
      · rw [List.splitOn_eq_singleton hmark, List.mem_singleton] at h
        exact ⟨[], [], by simp [h], rfl, rfl, h ▸ hmark⟩
  · rintro ⟨front, back, rfl, hfront, hback, hpiece⟩
    have htail : piece ∈ (piece ++ back).splitOn mark := by
      cases back with
      | nil => simp [List.splitOn_eq_singleton hpiece]
      | cons c back =>
        obtain rfl : c = mark := by simpa using hback
        rw [List.splitOn_append_cons_self, List.splitOn_eq_singleton hpiece]
        simp
    induction front using List.reverseRecOn with
    | nil => exact htail
    | append_singleton front c _ =>
      obtain rfl : c = mark := by simpa using hfront
      rw [List.append_assoc, List.singleton_append, List.splitOn_append_cons_self]
      exact List.mem_append_right _ htail

end KodyCelld.Lib
