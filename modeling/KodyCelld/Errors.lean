import KodyCelld.Lib.Js

namespace KodyCelld

open KodyCelld.Lib

/-!
# Errors (`lib/errors.ts`)
-/

/-- What a step of the source throws: a `KodyError`, or an error of the engine itself. -/
inductive Thrown where
  | kody (code message : Text) (status : ℕ := 400)
  | rangeError (message : Text)
  | error (message : Text)
  deriving DecidableEq, Repr

/-- `String(error)` of an error that is not one of the source's own, or its message. -/
def Thrown.message : Thrown → Text
  | .kody _ message _ => message
  | .rangeError message => message
  | .error message => message

/-- A computation that succeeds after a first one: the first one succeeded. -/
theorem bind_eq_ok {ε α β : Type} {x : Except ε α} {f : α → Except ε β} {b : β}
    (h : x >>= f = .ok b) : ∃ a, x = .ok a ∧ f a = .ok b := by
  cases x with
  | error e => exact absurd h (by simp [bind, Except.bind])
  | ok a => exact ⟨a, rfl, h⟩

theorem mapM_ok_iff {α β ε : Type} {g : α → Except ε β} {xs : List α} {ys : List β} :
    xs.mapM g = .ok ys ↔ List.Forall₂ (fun x y => g x = .ok y) xs ys := by
  induction xs generalizing ys with
  | nil =>
    rw [List.mapM_nil, List.forall₂_nil_left_iff]
    exact ⟨fun h => (Except.ok.inj h).symm, fun h => h ▸ rfl⟩
  | cons x xs ih =>
    rw [List.mapM_cons]
    cases hx : g x with
    | error e =>
      constructor
      · intro h
        exact absurd h (by simp [bind, Except.bind])
      · intro h
        cases h with
        | cons hy _ => exact absurd (hx.symm.trans hy) (by simp)
    | ok y =>
      cases hxs : xs.mapM g with
      | error e =>
        constructor
        · intro h
          exact absurd h (by simp [bind, Except.bind])
        · intro h
          cases h with
          | cons _ hrest => exact absurd (hxs.symm.trans (ih.mpr hrest)) (by simp)
      | ok rest =>
        constructor
        · intro h
          obtain rfl : y :: rest = ys := by simpa [bind, Except.bind, pure, Except.pure] using h
          exact .cons hx (ih.mp hxs)
        · intro h
          cases h with
          | cons hy hrest =>
            obtain rfl := Except.ok.inj (hx.symm.trans hy)
            obtain rfl := Except.ok.inj (hxs.symm.trans (ih.mpr hrest))
            rfl

theorem mapM_eq_ok {α β ε : Type} {f : α → Except ε β} {l : List α} {out : List β}
    (h : l.mapM f = .ok out) :
    (∀ a ∈ l, ∃ b ∈ out, f a = .ok b) ∧ ∀ b ∈ out, ∃ a ∈ l, f a = .ok b := by
  have hall := mapM_ok_iff.mp h
  clear h
  induction hall with
  | nil => exact ⟨fun a ha => absurd ha List.not_mem_nil, fun b hb => absurd hb List.not_mem_nil⟩
  | @cons a b l out hab _ ih =>
    obtain ⟨hfor, hback⟩ := ih
    constructor
    · intro a' ha'
      rcases List.mem_cons.mp ha' with rfl | ha'
      · exact ⟨b, List.mem_cons_self, hab⟩
      · obtain ⟨b', hb', heq'⟩ := hfor a' ha'
        exact ⟨b', List.mem_cons_of_mem _ hb', heq'⟩
    · intro b' hb'
      rcases List.mem_cons.mp hb' with rfl | hb'
      · exact ⟨a, List.mem_cons_self, hab⟩
      · obtain ⟨a', ha', heq'⟩ := hback b' hb'
        exact ⟨a', List.mem_cons_of_mem _ ha', heq'⟩

end KodyCelld
