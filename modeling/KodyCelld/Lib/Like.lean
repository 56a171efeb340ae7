import KodyCelld.Lib.Texts
import Mathlib.Data.List.Infix

namespace KodyCelld.Lib

/-!
# The `LIKE` operator

`text LIKE pattern ESCAPE '\'` as SQLite has it: `%` stands for any text, `_` for one character,
and letters match in either case, but only those of ASCII.

* `likeMatch` — the operator;
* `escapeLike` — a text as a part of a pattern that stands for itself;
* `likeMatch_contains` — what a pattern for "contains this text" matches.
-/

/-- A part of a pattern. -/
inductive LikeToken where
  | any
  | one
  | char (c : Char)
  deriving DecidableEq

/-- The parts of a pattern; `none` where it ends in the escape character. -/
def likeTokens : Text → Option (List LikeToken)
  | [] => some []
  | '\\' :: [] => none
  | '\\' :: c :: rest => (likeTokens rest).map (.char c :: ·)
  | '%' :: rest => (likeTokens rest).map (.any :: ·)
  | '_' :: rest => (likeTokens rest).map (.one :: ·)
  | c :: rest => (likeTokens rest).map (.char c :: ·)

/-- Whether a text is what the parts stand for, one after the other. -/
def matchTokens : List LikeToken → Text → Bool
  | [], text => text.isEmpty
  | .any :: tokens, text => text.tails.any (matchTokens tokens)
  | .one :: tokens, text =>
    match text with
    | [] => false
    | _ :: text => matchTokens tokens text
  | .char c :: tokens, text =>
    match text with
    | [] => false
    | d :: text => decide (c.toLower = d.toLower) && matchTokens tokens text

/-- `text LIKE pattern ESCAPE '\'` -/
def likeMatch (pattern text : Text) : Bool :=
  match likeTokens pattern with
  | none => false
  | some tokens => matchTokens tokens text

/-- The characters that mean something in a pattern. -/
def isWildcard (c : Char) : Bool := c = '%' || c = '_' || c = '\\'

/-- ``term.replaceAll(/[%_\\]/g, (c) => `\\${c}`)`` -/
def escapeLike (term : Text) : Text :=
  term.flatMap fun c => if isWildcard c then ['\\', c] else [c]

/-- A pattern for the texts that contain a text. -/
def containsPattern (term : Text) : Text := '%' :: escapeLike term ++ ['%']

/-- A character that is no wildcard stands for itself. -/
theorem likeTokens_plain {c : Char} (h : isWildcard c = false) (rest : Text) :
    likeTokens (c :: rest) = (likeTokens rest).map (.char c :: ·) := by
  unfold isWildcard at h
  rw [Bool.or_eq_false_iff, Bool.or_eq_false_iff] at h
  obtain ⟨⟨hpercent, hunderscore⟩, hescape⟩ := h
  rw [likeTokens.eq_def]
  split
  · rename_i heq
    exact absurd heq nofun
  · rename_i heq
    exact absurd (List.cons.inj heq).1 (of_decide_eq_false hescape)
  · rename_i heq
    exact absurd (List.cons.inj heq).1 (of_decide_eq_false hescape)
  · rename_i heq
    exact absurd (List.cons.inj heq).1 (of_decide_eq_false hpercent)
  · rename_i heq
    exact absurd (List.cons.inj heq).1 (of_decide_eq_false hunderscore)
  · rename_i heq
    rw [(List.cons.inj heq).1, (List.cons.inj heq).2]

/-- **An escaped text** stands for its characters. -/
theorem likeTokens_escapeLike (term rest : Text) : likeTokens (escapeLike term ++ rest) =
    (likeTokens rest).map (term.map LikeToken.char ++ ·) := by
  induction term with
  | nil => simp [escapeLike]
  | cons c term ih =>
    have hunfold : escapeLike (c :: term) ++ rest =
        (if isWildcard c then ['\\', c] else [c]) ++ (escapeLike term ++ rest) := by
      simp [escapeLike]
    have hmore : (likeTokens (escapeLike term ++ rest)).map (.char c :: ·) =
        (likeTokens rest).map ((c :: term).map LikeToken.char ++ ·) := by
      rw [ih, Option.map_map]
      rfl
    rw [hunfold]
    by_cases hc : isWildcard c = true
    · rw [if_pos hc]
      exact hmore
    · rw [if_neg hc]
      exact (likeTokens_plain (Bool.eq_false_of_not_eq_true hc) _).trans hmore

theorem likeTokens_containsPattern (term : Text) : likeTokens (containsPattern term) =
    some (.any :: (term.map LikeToken.char ++ [.any])) := by
  show (likeTokens (escapeLike term ++ ['%'])).map (.any :: ·) = _
  rw [likeTokens_escapeLike]
  rfl

/-- Characters and then anything: the text starts with them, up to the case of ASCII letters. -/
theorem matchTokens_chars {term text : Text} :
    matchTokens (term.map LikeToken.char ++ [.any]) text = true ↔
      ∃ front, front <+: text ∧ lower front = lower term := by
  induction term generalizing text with
  | nil =>
    have hany : matchTokens [.any] text = true := by
      rw [matchTokens, List.any_eq_true]
      exact ⟨[], by simp, rfl⟩
    refine ⟨fun _ => ⟨[], List.nil_prefix, rfl⟩, fun _ => hany⟩
  | cons c term ih =>
    cases text with
    | nil =>
      refine ⟨fun h => absurd h (by simp [matchTokens]), ?_⟩
      rintro ⟨front, hfront, hlower⟩
      rw [List.prefix_nil.mp hfront] at hlower
      exact absurd hlower (by simp [lower])
    | cons d text =>
      rw [List.map_cons, List.cons_append, matchTokens, Bool.and_eq_true, decide_eq_true_eq, ih]
      constructor
      · rintro ⟨hchar, front, hfront, hlower⟩
        refine ⟨d :: front, List.cons_prefix_cons.mpr ⟨rfl, hfront⟩, ?_⟩
        show d.toLower :: lower front = c.toLower :: lower term
        rw [hchar, hlower]
      · rintro ⟨front, hfront, hlower⟩
        cases front with
        | nil => exact absurd hlower (by simp [lower])
        | cons e front =>
          obtain ⟨rfl, hrest⟩ := List.cons_prefix_cons.mp hfront
          obtain ⟨hchar, hlower⟩ := List.cons.inj hlower
          exact ⟨hchar.symm, front, hrest, hlower⟩

/-- **What "contains" matches**: the texts that have the term somewhere, up to the case of ASCII
    letters. -/
theorem likeMatch_contains {term text : Text} : likeMatch (containsPattern term) text = true ↔
    ∃ part, part <:+: text ∧ lower part = lower term := by
  unfold likeMatch
  rw [likeTokens_containsPattern]
  dsimp only
  rw [matchTokens, List.any_eq_true]
  constructor
  · rintro ⟨tail, htail, hmatch⟩
    obtain ⟨front, hfront, hlower⟩ := matchTokens_chars.mp hmatch
    exact ⟨front, hfront.isInfix.trans ((List.mem_tails _ _).mp htail).isInfix, hlower⟩
  · rintro ⟨part, ⟨before, after, rfl⟩, hlower⟩
    refine ⟨part ++ after, ?_, matchTokens_chars.mpr ⟨part, List.prefix_append _ _, hlower⟩⟩
    rw [List.mem_tails, List.append_assoc]
    exact List.suffix_append _ _

/-- Escaping brings no other characters into a pattern. -/
theorem mem_containsPattern {term : Text} {c : Char} (h : c ∈ containsPattern term) :
    isWildcard c = true ∨ c ∈ term := by
  unfold containsPattern at h
  rcases List.mem_append.mp h with h | h
  · rcases List.mem_cons.mp h with rfl | h
    · exact .inl (by decide)
    · obtain ⟨d, hd, hc⟩ := List.mem_flatMap.mp h
      split at hc
      · rcases List.mem_cons.mp hc with rfl | hc
        · exact .inl (by decide)
        · exact .inr (List.mem_singleton.mp hc ▸ hd)
      · exact .inr (List.mem_singleton.mp hc ▸ hd)
  · rw [List.mem_singleton.mp h]
    exact .inl (by decide)

/-- SQLite folds the case of its text once more, to no effect. -/
theorem likeMatch_lower (pattern text : Text) :
    likeMatch pattern (lower text) = likeMatch pattern text := by
  have htokens : ∀ (tokens : List LikeToken) (text : Text),
      matchTokens tokens (lower text) = matchTokens tokens text := by
    intro tokens
    induction tokens with
    | nil => intro text; cases text <;> rfl
    | cons token tokens ih =>
      intro text
      cases token with
      | any =>
        have htails : (lower text).tails = text.tails.map lower := List.map_tails ..
        rw [matchTokens, matchTokens, htails, List.any_map]
        congr 1
        exact funext ih
      | one =>
        cases text with
        | nil => rfl
        | cons d text => exact ih text
      | char c =>
        cases text with
        | nil => rfl
        | cons d text =>
          show (decide (c.toLower = d.toLower.toLower) && matchTokens tokens (lower text)) =
            (decide (c.toLower = d.toLower) && matchTokens tokens text)
          rw [toLower_toLower, ih]
  unfold likeMatch
  split
  · rfl
  · exact htokens _ _

end KodyCelld.Lib
